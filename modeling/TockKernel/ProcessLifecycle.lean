import TockKernel.ProcessStandard

/-!
# Creating, restarting and faulting processes

The functions of `kernel/src/process_standard.rs` that lay out the memory of a
process: `create`, which places the kernel's own objects at the top of the
block the MPU returned, and `reset`, which computes the breaks again when the
process is restarted.
-/

namespace TockKernel

inductive Panic where
  /-- `split_at_mut` past the end of a slice. -/
  | splitOutOfRange
  /-- "Process {} had a fault". -/
  | processFault
  /-- "Attempted to re-enter a grant region." -/
  | grantReentered
  /-- "Attempted to schedule an unrunnable process". -/
  | unrunnableProcess
  /-- The `todo!()` for an IPC task of a process that waits for an upcall. -/
  | ipcWhileWaiting
  /-- "Kernel consistency error: IPC Task with no IPC". -/
  | ipcTaskWithoutIpc
  deriving DecidableEq, Repr

inductive ProcessLoadError where
  | notEnoughMemory
  | mpuInvalidFlashLength
  | mpuConfigurationError
  | memoryAddressMismatch (actualAddress expectedAddress : BitVec 32)
  | internalError
  deriving DecidableEq, Repr

structure MemorySlice where
  start : Usize
  len : Usize
  deriving DecidableEq, Repr

structure ProcessBinary where
  header : TbfHeader
  flash : Slice

/-- What the loader hands to `create` besides the binary, and the bytes its
memory happens to hold. -/
structure CreateArguments where
  pb : ProcessBinary
  remainingMemory : Slice
  faultPolicy : ProcessFaultPolicy
  index : Usize
  memory : Usize → BitVec 8
  upcallBuf : Fin callbackLen → Task

namespace Board

variable (B : Board)

def grantPtrsOffset : Usize :=
  B.grantCount * 8

def callbacksOffset : Usize :=
  B.chip.sizeOfTask * 10

def processStructOffset : Usize :=
  B.chip.sizeOfProcessStandard

/-- Size of the grant pointer table, the upcall queue and the record of a
process, in bytes. -/
def kernelObjectsSize : ℕ :=
  B.grantCount.toNat * 8 + B.chip.sizeOfTask.toNat * 10 + B.chip.sizeOfProcessStandard.toNat

theorem kernelObjectsSize_lt : B.kernelObjectsSize + 4 < 2 ^ 32 := B.kernelObjects_fit

theorem toNat_grantPtrsOffset : B.grantPtrsOffset.toNat = B.grantCount.toNat * 8 := by
  have hfits := B.kernelObjects_fit
  exact Nat.mod_eq_of_lt (show B.grantCount.toNat * 8 < 2 ^ 32 by omega)

theorem toNat_callbacksOffset : B.callbacksOffset.toNat = B.chip.sizeOfTask.toNat * 10 := by
  have hfits := B.kernelObjects_fit
  exact Nat.mod_eq_of_lt (show B.chip.sizeOfTask.toNat * 10 < 2 ^ 32 by omega)

theorem toNat_kernelObjects :
    (B.grantPtrsOffset + B.callbacksOffset + B.processStructOffset).toNat =
      B.kernelObjectsSize := by
  have hfits := B.kernelObjects_fit
  rw [BitVec.toNat_add, BitVec.toNat_add, toNat_grantPtrsOffset,
    toNat_callbacksOffset, Nat.mod_add_mod]
  exact Nat.mod_eq_of_lt (show B.kernelObjectsSize < 2 ^ 32 by
    unfold kernelObjectsSize
    omega)

theorem toNat_kernelObjects_add_four :
    (B.grantPtrsOffset + B.callbacksOffset + B.processStructOffset +
      4).toNat = B.kernelObjectsSize + 4 := by
  rw [BitVec.toNat_add, toNat_kernelObjects]
  exact Nat.mod_eq_of_lt B.kernelObjectsSize_lt

end Board

namespace ProcessStandard

variable {B : Board} (p : ProcessStandard B)

def initTask : Task :=
  .functionCall {
    source := .kernel
    pc := p.flashStart + p.header.getInitFunctionOffset
    argument0 := p.flashStart + p.header.getAppStartOffset
    argument1 := p.memoryStart
    argument2 := p.memoryLen
    argument3 := p.appBreak }

/-! ## Restarting -/

/-- The first step of `reset`: a new identity, with fresh debug counters. -/
def newIncarnation (newIdentifier : Usize) : ProcessStandard B :=
  { p with
    processId := { p.processId with identifier := newIdentifier }
    debug := { p.debug with
      syscallCount := 0
      lastSyscall := none
      droppedUpcallCount := 0
      timesliceExpirationCount := 0 } }

/-- `initial_kernel_memory_size` as `reset` computes it: unlike in `create`, no
room for alignment padding is added. -/
def resetKernelMemorySize (B : Board) : Usize :=
  B.grantPtrsOffset + B.callbacksOffset + B.processStructOffset

/-- The MPU part of `reset`: set the configuration up again for the flash of
the process and for the memory it already has. -/
def reallocate (config : B.chip.mpu.MpuConfig) :
    Except ErrorCode (Usize × Usize × B.chip.mpu.MpuConfig) :=
  match B.chip.mpu.allocateRegion p.flash.start p.flash.len p.flash.len
      .readExecuteOnly (B.chip.mpu.resetConfig config) with
  | (none, _) => .error .fail
  | (some _, config) =>
    match B.chip.mpu.allocateAppMemoryRegion p.memStart p.memoryLen
        p.memoryLen B.chip.ukb.initialProcessAppBrkSize
        (resetKernelMemorySize B) .readWriteOnly config with
    | (none, _) => .error .nomem
    | (some (appMpuMemStart, appMpuMemLen), config) =>
      .ok (appMpuMemStart, appMpuMemLen, config)

/-- The breaks as `reset` computes them from the block it was given. -/
def relayOut (appMpuMemStart appMpuMemLen : Usize)
    (config : B.chip.mpu.MpuConfig) : ProcessStandard B :=
  { p with
    appBreak := appMpuMemStart + B.chip.ukb.initialProcessAppBrkSize
    kernelMemoryBreak :=
      appMpuMemStart + appMpuMemLen - resetKernelMemorySize B
    allowHighWaterMark := appMpuMemStart
    mpuConfig := some config }

/-- The last step of `reset`: initialise the stored state and queue the call
of the entry point. -/
def initializeAgain (appMpuMemStart : Usize) : Except ErrorCode Unit × ProcessStandard B :=
  match B.chip.ukb.initializeProcess appMpuMemStart p.appBreak p.storedState with
  | (.error (), storedState) =>
    (.error .reserve, { p with storedState := storedState })
  | (.ok (), storedState) =>
    let p := { p with
      storedState := storedState
      restartCount := p.restartCount + 1
      state := .yielded }
    p.enqueueTask p.initTask

def resetAs (newIdentifier : Usize) : Except ErrorCode Unit × ProcessStandard B :=
  let p := p.newIncarnation newIdentifier
  match p.mpuConfig with
  | none => (.error .fail, p)
  | some config =>
    match p.reallocate config with
    -- The configuration was taken out of its cell and is lost.
    | .error error => (.error error, { p with mpuConfig := none })
    | .ok (appMpuMemStart, appMpuMemLen, config) =>
      (p.relayOut appMpuMemStart appMpuMemLen config).initializeAgain appMpuMemStart

def reset (kernel : Kernel) : (Except ErrorCode Unit × ProcessStandard B) × Kernel :=
  let (newIdentifier, kernel) := kernel.createProcessIdentifier
  (p.resetAs newIdentifier, kernel)

/-- `reset`, and the state a successful one leaves the process in. -/
def resetToYielded (kernel : Kernel) : ProcessStandard B × Kernel :=
  match p.reset kernel with
  | ((.ok (), p), kernel) => ({ p with state := .yielded }, kernel)
  | ((.error _, p), kernel) => (p, kernel)

def start (kernel : Kernel) : ProcessStandard B × Kernel :=
  if p.state ≠ .terminated then
    (p, kernel)
  else
    p.resetToYielded kernel

def tryRestart (completionCode : Option (BitVec 32)) (kernel : Kernel) :
    ProcessStandard B × Kernel :=
  if p.state = .terminated then
    (p, kernel)
  else
    (p.terminate completionCode).resetToYielded kernel

def setFaultState (kernel : Kernel) : Except Panic (ProcessStandard B × Kernel) :=
  match p.faultPolicy p.restartCount with
  | .panic => .error .processFault
  | .restart => .ok (p.tryRestart none kernel)
  | .stop => .ok ({ p.terminate none with state := .faulted }, kernel)

/-! ## Crossing the boundary to userspace -/

/-- The process is made to run, or, if the boundary could not reach its stack,
it has faulted. -/
def runIfAccepted (outcome : Except Unit Unit × B.chip.ukb.StoredState) (kernel : Kernel) :
    Except Panic (ProcessStandard B × Kernel) :=
  match outcome with
  | (.ok (), storedState) =>
    .ok ({ p with storedState := storedState, state := .running }, kernel)
  | (.error (), storedState) =>
    { p with storedState := storedState }.setFaultState kernel

def setSyscallReturnValue (p : ProcessStandard B) (returnValue : SyscallReturn) (kernel : Kernel) :
    Except Panic (ProcessStandard B × Kernel) :=
  p.runIfAccepted (B.chip.ukb.setSyscallReturnValue p.memStart p.appBreak
    p.storedState returnValue) kernel

def setProcessFunction (p : ProcessStandard B) (callback : FunctionCall)
    (kernel : Kernel) : Except Panic (ProcessStandard B × Kernel) :=
  p.runIfAccepted (B.chip.ukb.setProcessFunction p.memStart p.appBreak
    p.storedState callback) kernel

def noteStackPointer (stackPointer : Option Usize) : ProcessStandard B :=
  match stackPointer with
  | none => p
  | some sp =>
    if p.debug.appStackMinPointer.all fun min => sp < min then
      { p with debug := { p.debug with appStackMinPointer := some sp } }
    else
      p

def switchTo : Option ContextSwitchReason × ProcessStandard B :=
  if !p.isRunning then
    (none, p)
  else
    let ((switchReason, stackPointer), storedState) :=
      B.chip.ukb.switchToProcess p.memStart p.appBreak p.storedState
    (some switchReason, { p with storedState := storedState }.noteStackPointer stackPointer)

/-! ## Creating -/

def skipToFixedAddress (header : TbfHeader) (remaining : MemorySlice) :
    Except (ProcessLoadError × MemorySlice) MemorySlice :=
  match header.getFixedAddressRam with
  | none => .ok remaining
  | some fixedMemoryStart =>
    if fixedMemoryStart = remaining.start then
      .ok remaining
    else if fixedMemoryStart > remaining.start then
      let diff := fixedMemoryStart - remaining.start
      if diff > remaining.len then
        .error (.memoryAddressMismatch
          (remaining.start + remaining.len - 1) fixedMemoryStart, remaining)
      else
        .ok ⟨remaining.start + diff, remaining.len - diff⟩
    else
      .error (.memoryAddressMismatch remaining.start fixedMemoryStart, remaining)

variable (arguments : CreateArguments)

/-- A new process in the block `[start, start + len)`, with the grant pointer
table, the upcall queue and the record placed below its last word boundary. -/
def layOut (identifier : Usize)
    (start len : Usize) (mpuConfig : B.chip.mpu.MpuConfig) : ProcessStandard B :=
  let blockEnd := start + len
  let wordBoundary := blockEnd - blockEnd % 4
  let grantPointersAddress := wordBoundary - B.grantPtrsOffset
  let upcallBufAddress := grantPointersAddress - B.callbacksOffset
  let processStructAddress := upcallBufAddress - B.processStructOffset
  { processId := ⟨arguments.index, identifier⟩
    memoryStart := start
    memoryLen := len
    grantPointers := List.replicate B.grantCount.toNat .unallocated
    kernelMemoryBreak := processStructAddress
    appBreak := start + B.chip.ukb.initialProcessAppBrkSize
    allowHighWaterMark := start
    flash := arguments.pb.flash
    header := arguments.pb.header
    storedState := B.chip.ukb.default
    state := .yielded
    faultPolicy := arguments.faultPolicy
    mpuConfig := some mpuConfig
    mpuRegions := List.replicate 6 none
    tasks := .new arguments.upcallBuf (by decide)
    restartCount := 0
    completionCode := none
    debug := {
      appHeapStartPointer := none
      appStackStartPointer := none
      appStackMinPointer := none
      syscallCount := 0
      lastSyscall := none
      droppedUpcallCount := 0
      timesliceExpirationCount := 0 }
    grantPointersAddress := grantPointersAddress
    upcallBufAddress := upcallBufAddress
    processStructAddress := processStructAddress
    memory := arguments.memory }

/-- Outcome of `create`: the process and the memory it leaves unused, or an
error and the memory handed back. -/
abbrev CreateResult (B : Board) :=
  Except (ProcessLoadError × MemorySlice) (ProcessStandard B × MemorySlice)

/-- The end of `create`: lay out the block, initialise the process and queue
the call of its entry point. -/
def createIn (kernel : Kernel) (start len : Usize)
    (unused : MemorySlice) (mpuConfig : B.chip.mpu.MpuConfig) : CreateResult B × Kernel :=
  let (identifier, kernel) := kernel.createProcessIdentifier
  let p := layOut arguments identifier start len mpuConfig
  match B.chip.ukb.initializeProcess start p.appBreak p.storedState with
  | (.error (), _) => (.error (.internalError, unused), kernel)
  | (.ok (), storedState) =>
    let p := { p with storedState := storedState }
    (.ok ({ p with tasks := (p.tasks.enqueue p.initTask).2 }, unused), kernel)

def create (kernel : Kernel) : Except Panic (CreateResult B × Kernel) :=
  let pb := arguments.pb
  let remaining : MemorySlice := ⟨arguments.remainingMemory.start, arguments.remainingMemory.len⟩
  match B.chip.mpu.newConfig with
  | none => .ok (.error (.mpuConfigurationError, remaining), kernel)
  | some config =>
  match B.chip.mpu.allocateRegion pb.flash.start pb.flash.len pb.flash.len
      .readExecuteOnly config with
  | (none, _) => .ok (.error (.mpuInvalidFlashLength, remaining), kernel)
  | (some _, config) =>
  let initialKernelMemorySize := B.grantPtrsOffset + B.callbacksOffset + B.processStructOffset + 4
  let minProcessMemorySize := B.chip.ukb.initialProcessAppBrkSize
  let minProcessRamSize := cmpMax pb.header.getMinimumAppRamSize minProcessMemorySize
  let minTotalMemorySize := minProcessRamSize + initialKernelMemorySize
  match skipToFixedAddress pb.header remaining with
  | .error failure => .ok (.error failure, kernel)
  | .ok remaining =>
  match B.chip.mpu.allocateAppMemoryRegion remaining.start remaining.len
      minTotalMemorySize minProcessMemorySize initialKernelMemorySize
      .readWriteOnly config with
  | (none, _) => .ok (.error (.notEnoughMemory, remaining), kernel)
  | (some (allocationStart, allocationSize), config) =>
  let appMemoryStartOffset := allocationStart - remaining.start
  let actualAddress := remaining.start + appMemoryStartOffset
  if pb.header.getFixedAddressRam.any fun fixed => actualAddress ≠ fixed then
    .ok (.error (.memoryAddressMismatch actualAddress
      (pb.header.getFixedAddressRam.getD 0), remaining), kernel)
  else
  let paddedLen := appMemoryStartOffset + allocationSize
  -- The three `split_at_mut`: the padded block, its padding, its app part.
  if paddedLen > remaining.len ∨ appMemoryStartOffset > paddedLen ∨
      minProcessMemorySize > paddedLen - appMemoryStartOffset then
    .error .splitOutOfRange
  else
    .ok (createIn arguments kernel (remaining.start + appMemoryStartOffset)
      (paddedLen - appMemoryStartOffset)
      ⟨remaining.start + paddedLen, remaining.len - paddedLen⟩ config)

end ProcessStandard

end TockKernel

import TockKernel.ProcessTypes
import TockKernel.RingBuffer

/-!
# Processes

A model of `ProcessStandard` in `kernel/src/process_standard.rs`. Arithmetic is
that of the `release` profile the boards are built with, in which additions wrap
around; a `dev` build stops where a wrapped value would have been used.
-/

namespace TockKernel

/-- The kernel as it is configured when the first process is created: the
chip, and the number of grants, which is final from then on. -/
structure Board where
  chip : Chip
  /-- `get_grant_count_and_finalize()`. -/
  grantCount : Usize
  /-- Sizes of Rust types that hold words are multiples of the word size. -/
  four_dvd_sizeOfTask : 4 ∣ chip.sizeOfTask.toNat
  four_dvd_sizeOfProcessStandard : 4 ∣ chip.sizeOfProcessStandard.toNat
  /-- The table, queue and record of a process are Rust objects, so together
  they do not exceed the address space. -/
  kernelObjects_fit : grantCount.toNat * 8 + chip.sizeOfTask.toNat * 10 +
      chip.sizeOfProcessStandard.toNat + 4 < 2 ^ 32

/-- A Rust slice of memory: it is not at address zero and does not reach the
end of the address space. -/
structure Slice where
  start : Usize
  len : Usize
  start_pos : 0 < start.toNat
  noWrap : start.toNat + len.toNat < 2 ^ 32

structure TbfHeaderMain where
  initFnOffset : BitVec 32
  protectedTrailerSize : BitVec 32
  minimumRamSize : BitVec 32

/-- The fields of a parsed TBF header that process creation and `memop` use. -/
structure TbfHeader where
  headerSize : BitVec 16
  /-- The program header, or else the main header. -/
  main : Option TbfHeaderMain
  startProcessRam : Option (BitVec 32)
  /-- Offset and size of each writeable flash region. -/
  writeableRegions : List (BitVec 32 × BitVec 32)

namespace TbfHeader

def getMinimumAppRamSize (header : TbfHeader) : BitVec 32 :=
  match header.main with
  | some main => main.minimumRamSize
  | none => 0

def getProtectedSize (header : TbfHeader) : BitVec 32 :=
  match header.main with
  | some main => header.headerSize.setWidth 32 + main.protectedTrailerSize
  | none => 0

def getAppStartOffset (header : TbfHeader) : BitVec 32 :=
  header.getProtectedSize

def getInitFunctionOffset (header : TbfHeader) : BitVec 32 :=
  match header.main with
  | some main => main.initFnOffset + header.headerSize.setWidth 32
  | none => 0

def getFixedAddressRam (header : TbfHeader) : Option (BitVec 32) :=
  match header.startProcessRam with
  | some start => if start = 0xFFFFFFFF then none else some start
  | none => none

def numberWriteableFlashRegions (header : TbfHeader) : Usize :=
  BitVec.ofNat 32 header.writeableRegions.length

def getWriteableFlashRegion (header : TbfHeader) (index : Usize) : BitVec 32 × BitVec 32 :=
  header.writeableRegions[(index * 8).toNat / 8]?.getD (0, 0)

end TbfHeader

structure GrantPointerEntry where
  driverNum : Usize
  grantPtr : Usize
  deriving DecidableEq

def GrantPointerEntry.unallocated : GrantPointerEntry where
  driverNum := 0
  grantPtr := 0

structure ProcessStandardDebug where
  appHeapStartPointer : Option Usize
  appStackStartPointer : Option Usize
  appStackMinPointer : Option Usize
  syscallCount : Usize
  lastSyscall : Option Syscall
  droppedUpcallCount : Usize
  timesliceExpirationCount : Usize

/-- What to do when a process faults; the policies decide by how often it has
been restarted. -/
def ProcessFaultPolicy := (restartCount : Usize) → FaultAction

/-- Number of slots of the upcall queue, `CALLBACK_LEN`. -/
def callbackLen : ℕ := 10

structure ProcessStandard (B : Board) where
  processId : ProcessId
  memoryStart : Usize
  memoryLen : Usize
  grantPointers : List GrantPointerEntry
  kernelMemoryBreak : Usize
  appBreak : Usize
  allowHighWaterMark : Usize
  flash : Slice
  header : TbfHeader
  storedState : B.chip.ukb.StoredState
  state : State
  faultPolicy : ProcessFaultPolicy
  mpuConfig : Option B.chip.mpu.MpuConfig
  mpuRegions : List (Option Region)
  tasks : RingBuffer Task callbackLen
  restartCount : Usize
  completionCode : Option (Option (BitVec 32))
  debug : ProcessStandardDebug
  /-- Where the grant pointer table, the upcall queue and this record itself
  are stored. -/
  grantPointersAddress : Usize
  upcallBufAddress : Usize
  processStructAddress : Usize
  /-- The bytes of the process's memory. -/
  memory : Usize → BitVec 8

/-- The part of the `Kernel` record that process management changes. -/
structure Kernel where
  processIdentifierMax : Usize

def Kernel.createProcessIdentifier (kernel : Kernel) : Usize × Kernel :=
  (kernel.processIdentifierMax, { processIdentifierMax := kernel.processIdentifierMax + 1 })

namespace ProcessStandard

variable {B : Board}

/-! ## Task queue and state -/

variable (p : ProcessStandard B)

def isRunning : Bool :=
  match p.state with
  | .running | .yielded | .yieldedFor _ | .stopped _ => true
  | .faulted | .terminated => false

def enqueueTask (task : Task) : Except ErrorCode Unit × ProcessStandard B :=
  if !p.isRunning then
    (.error .nodevice, p)
  else
    match p.tasks.enqueue task with
    | (true, tasks) => (.ok (), { p with tasks := tasks })
    | (false, tasks) =>
      (.error .nomem, { p with
        tasks := tasks
        debug := { p.debug with
          droppedUpcallCount := p.debug.droppedUpcallCount + 1 } })

def ready : Bool :=
  p.tasks.hasElements || p.state == .running

def removePendingUpcalls (upcallId : UpcallId) : ProcessStandard B :=
  { p with tasks := p.tasks.retain fun task =>
      match task with
      | .functionCall call =>
        match call.source with
        | .kernel => true
        | .driver id => id != upcallId
      | _ => true }

def setYieldedState : ProcessStandard B :=
  if p.state = .running then { p with state := .yielded } else p

def setYieldedForState (upcallId : UpcallId) : ProcessStandard B :=
  if p.state = .running then { p with state := .yieldedFor upcallId } else p

def stop : ProcessStandard B :=
  match p.state with
  | .running => { p with state := .stopped .running }
  | .yielded => { p with state := .stopped .yielded }
  | .yieldedFor upcallId => { p with state := .stopped (.yieldedFor upcallId) }
  | .stopped _ => p
  | .faulted | .terminated => p

def resume : ProcessStandard B :=
  match p.state with
  | .stopped .running => { p with state := .running }
  | .stopped .yielded => { p with state := .yielded }
  | .stopped (.yieldedFor upcallId) => { p with state := .yieldedFor upcallId }
  | _ => p

def grantPtrsReset : ProcessStandard B :=
  { p with grantPointers := p.grantPointers.map fun _ => .unallocated }

def terminate (completionCode : Option (BitVec 32)) : ProcessStandard B :=
  if !p.isRunning && p.state != .faulted then
    p
  else
    { p.grantPtrsReset with
      tasks := p.tasks.empty
      completionCode := some completionCode
      state := .terminated }

def hasTasks : Bool :=
  p.tasks.hasElements

def dequeueTask : Option Task × ProcessStandard B :=
  let dequeued := p.tasks.dequeue
  (dequeued.1, { p with tasks := dequeued.2 })

def removeUpcall (upcallId : UpcallId) : Option Task × ProcessStandard B :=
  let removed := p.tasks.removeFirstMatching fun task =>
    match task with
    | .functionCall call =>
      match call.source with
      | .driver id => id == upcallId
      | .kernel => false
    | .returnValue arguments => arguments.upcallId == upcallId
    | .ipc _ _ => false
  (removed.1, { p with tasks := removed.2 })

/-! ## Addresses -/

def memStart : Usize :=
  p.memoryStart

def memEnd : Usize :=
  p.memoryStart + p.memoryLen

def flashStart : Usize :=
  p.flash.start

def flashNonProtectedStart : Usize :=
  p.flash.start + p.header.getProtectedSize

def flashEnd : Usize :=
  p.flash.start + p.flash.len

variable (bufStartAddr size : Usize)

def inAppOwnedMemory : Bool :=
  let bufEndAddr := bufStartAddr + size
  decide (bufEndAddr ≥ bufStartAddr) && decide (bufStartAddr ≥ p.memStart) &&
    decide (bufEndAddr ≤ p.appBreak)

def inAppFlashMemory : Bool :=
  let bufEndAddr := bufStartAddr + size
  decide (bufEndAddr ≥ bufStartAddr) && decide (bufStartAddr ≥ p.flashNonProtectedStart) &&
    decide (bufEndAddr ≤ p.flashEnd)

theorem inAppOwnedMemory_iff {p : ProcessStandard B} {bufStartAddr size : Usize} :
    p.inAppOwnedMemory bufStartAddr size ↔ p.memoryStart.toNat ≤ bufStartAddr.toNat ∧
        bufStartAddr.toNat + size.toNat ≤ p.appBreak.toNat := by
  rw [← Word.range_within_iff]
  simp [inAppOwnedMemory, memStart, and_assoc]

theorem inAppFlashMemory_iff {p : ProcessStandard B} {bufStartAddr size : Usize} :
    p.inAppFlashMemory bufStartAddr size ↔ p.flashNonProtectedStart.toNat ≤ bufStartAddr.toNat ∧
        bufStartAddr.toNat + size.toNat ≤ p.flashEnd.toNat := by
  rw [← Word.range_within_iff]
  simp [inAppFlashMemory, and_assoc]

def isValidUpcallFunctionPointer (upcallFn : Usize) : Bool :=
  p.inAppFlashMemory upcallFn 4 || p.inAppOwnedMemory upcallFn 4

/-! ## Memory breaks and process buffers -/

def brk (newBreak : Usize) : Except ProcessError Usize × ProcessStandard B :=
  if !p.isRunning then
    (.error .inactiveApp, p)
  else
    match p.mpuConfig with
    | none => (.error .kernelError, p)
    | some config =>
      if newBreak < p.allowHighWaterMark ∨ newBreak ≥ p.memEnd then
        (.error .addressOutOfBounds, p)
      else if newBreak > p.kernelMemoryBreak then
        (.error .outOfMemory, p)
      else
        match B.chip.mpu.updateAppMemoryRegion newBreak p.kernelMemoryBreak
            .readWriteOnly config with
        | (.error (), config) =>
          (.error .outOfMemory, { p with mpuConfig := some config })
        | (.ok (), config) =>
          (.ok p.appBreak, { p with
            appBreak := newBreak
            mpuConfig := some (B.chip.mpu.configureMpu config) })

/-- The increment is an `isize`; its bits are added to the break. -/
def sbrk (increment : Usize) : Except ProcessError Usize × ProcessStandard B :=
  if !p.isRunning then
    (.error .inactiveApp, p)
  else
    p.brk (p.appBreak + increment)

def raiseAllowHighWaterMark : ProcessStandard B :=
  { p with allowHighWaterMark :=
      cmpMax p.allowHighWaterMark (bufStartAddr + size) }

def buildReadwriteProcessBuffer : Except ErrorCode ProcessBuffer × ProcessStandard B :=
  if !p.isRunning then
    (.error .fail, p)
  else if size = 0 then
    (.ok ⟨bufStartAddr, 0, p.processId⟩, p)
  else if p.inAppOwnedMemory bufStartAddr size then
    (.ok ⟨bufStartAddr, size, p.processId⟩, p.raiseAllowHighWaterMark bufStartAddr size)
  else
    (.error .inval, p)

def buildReadonlyProcessBuffer : Except ErrorCode ProcessBuffer × ProcessStandard B :=
  if !p.isRunning then
    (.error .fail, p)
  else if size = 0 then
    (.ok ⟨bufStartAddr, 0, p.processId⟩, p)
  else if p.inAppOwnedMemory bufStartAddr size || p.inAppFlashMemory bufStartAddr size then
    (.ok ⟨bufStartAddr, size, p.processId⟩,
      if p.inAppOwnedMemory bufStartAddr size then
        p.raiseAllowHighWaterMark bufStartAddr size
      else
        p)
  else
    (.error .inval, p)

def setByte (addr : Usize) (value : BitVec 8) : Bool × ProcessStandard B :=
  if p.inAppOwnedMemory addr 1 then
    (true, { p with memory := Function.update p.memory addr value })
  else
    (false, p)

/-- Stores by the process itself, or by the boundary that prepares its stack.
The region that the MPU opens for a process may reach beyond its break, up to
the memory of the kernel. -/
def writeAppMemory (writes : Usize → Option (BitVec 8)) : ProcessStandard B :=
  { p with memory := fun address =>
      if p.memStart ≤ address ∧ address < p.kernelMemoryBreak then
        (writes address).getD (p.memory address)
      else
        p.memory address }

def setupMpu : ProcessStandard B :=
  { p with mpuConfig := p.mpuConfig.map B.chip.mpu.configureMpu }

def addMpuRegion (unallocatedMemoryStart unallocatedMemorySize minRegionSize : Usize) :
    Option Region × ProcessStandard B :=
  match p.mpuConfig with
  | none => (none, p)
  | some config =>
    match B.chip.mpu.allocateRegion unallocatedMemoryStart
        unallocatedMemorySize minRegionSize .readWriteOnly config with
    | (none, config) => (none, { p with mpuConfig := some config })
    | (some newRegion, config) =>
      let p := { p with mpuConfig := some config }
      match p.mpuRegions.findIdx? Option.isNone with
      | some slot =>
        (some newRegion, { p with
          mpuRegions := p.mpuRegions.set slot (some newRegion) })
      -- The region stays in the configuration without being recorded.
      | none => (none, p)

def removeMpuRegion (region : Region) : Except ErrorCode Unit × ProcessStandard B :=
  match p.mpuConfig with
  | none => (.error .inval, p)
  | some config =>
    match p.mpuRegions.findIdx? (· == some region) with
    | none => (.error .inval, p)
    | some slot =>
      match B.chip.mpu.removeMemoryRegion region config with
      | (.error (), config) =>
        (.error .fail, { p with mpuConfig := some config })
      | (.ok (), config) =>
        (.ok (), { p with
          mpuConfig := some config
          mpuRegions := p.mpuRegions.set slot none })

/-! ## Debugging data -/

def updateStackStartPointer (stackPointer : Usize) : ProcessStandard B :=
  if stackPointer ≥ p.memStart ∧ stackPointer < p.memEnd then
    { p with debug := { p.debug with
      appStackStartPointer := some stackPointer
      appStackMinPointer := some stackPointer } }
  else
    p

def updateHeapStartPointer (heapPointer : Usize) : ProcessStandard B :=
  if heapPointer ≥ p.memStart ∧ heapPointer < p.memEnd then
    { p with debug := { p.debug with
      appHeapStartPointer := some heapPointer } }
  else
    p

def debugTimesliceExpired : ProcessStandard B :=
  { p with debug := { p.debug with
    timesliceExpirationCount := p.debug.timesliceExpirationCount + 1 } }

def debugSyscallCalled (lastSyscall : Syscall) : ProcessStandard B :=
  { p with debug := { p.debug with
    syscallCount := p.debug.syscallCount + 1
    lastSyscall := some lastSyscall } }

/-! ## Grants -/

def grantIsAllocated (grantNum : Usize) : Option Bool :=
  if !p.isRunning then
    none
  else
    p.grantPointers[grantNum.toNat]?.map fun entry => entry.grantPtr != 0

def allocateInGrantRegionInternal (size align : Usize) : Option Usize × ProcessStandard B :=
  match p.mpuConfig with
  | none => (none, p)
  | some config =>
    let newBreakUnaligned := p.kernelMemoryBreak - size
    let alignmentMask := ~~~(cmpMax align 2 - 1)
    let newBreak := newBreakUnaligned &&& alignmentMask
    if newBreak < p.appBreak then
      (none, p)
    else if newBreak > p.kernelMemoryBreak then
      (none, p)
    else
      match B.chip.mpu.updateAppMemoryRegion p.appBreak newBreak .readWriteOnly config with
      | (.error (), config) => (none, { p with mpuConfig := some config })
      | (.ok (), config) =>
        (some newBreak, { p with
          kernelMemoryBreak := newBreak
          mpuConfig := some config })

def allocateGrant (grantNum driverNum size align : Usize) : Except Unit Unit × ProcessStandard B :=
  if !p.isRunning then
    (.error (), p)
  else if grantNum ≥ B.grantCount then
    (.error (), p)
  else if p.grantIsAllocated grantNum = some true then
    (.error (), p)
  else if p.grantPointers.any fun entry =>
      entry.grantPtr != 0 && entry.driverNum == driverNum then
    (.error (), p)
  else
    match p.allocateInGrantRegionInternal size align with
    | (none, p) => (.error (), p)
    | (some grantPtr, p) =>
      if grantNum.toNat < p.grantPointers.length then
        (.ok (), { p with
          grantPointers :=
            p.grantPointers.set grantNum.toNat ⟨driverNum, grantPtr⟩ })
      else
        (.error (), p)

def createCustomGrantIdentifier (ptr : Usize) : CustomGrantIdentifier :=
  ⟨p.memEnd - ptr⟩

def getCustomGrantAddress (identifier : CustomGrantIdentifier) : Usize :=
  p.memEnd - identifier.offset

def allocateCustomGrant (size align : Usize) :
    Except Unit (CustomGrantIdentifier × Usize) × ProcessStandard B :=
  if !p.isRunning then
    (.error (), p)
  else
    match p.allocateInGrantRegionInternal size align with
    | (some ptr, p) => (.ok (p.createCustomGrantIdentifier ptr, ptr), p)
    | (none, p) => (.error (), p)

def enterGrant (grantNum : Usize) : Except ProcessError Usize × ProcessStandard B :=
  if !p.isRunning then
    (.error .inactiveApp, p)
  else
    match p.grantPointers[grantNum.toNat]? with
    | none => (.error .addressOutOfBounds, p)
    | some entry =>
      if entry.grantPtr &&& 1 = 1 then
        (.error .alreadyInUse, p)
      else
        (.ok entry.grantPtr, { p with
          grantPointers := p.grantPointers.set grantNum.toNat
            { entry with grantPtr := entry.grantPtr ||| 1 } })

def leaveGrant (grantNum : Usize) : ProcessStandard B :=
  if !p.isRunning then
    p
  else
    match p.grantPointers[grantNum.toNat]? with
    | none => p
    | some entry =>
      { p with
        grantPointers := p.grantPointers.set grantNum.toNat
          { entry with grantPtr := entry.grantPtr &&& ~~~1 } }

def grantAllocatedCount : Option ℕ :=
  if !p.isRunning then
    none
  else
    some (p.grantPointers.countP fun entry => entry.grantPtr != 0)

def lookupGrantFromDriverNum (driverNum : Usize) : Except ProcessError Usize :=
  match p.grantPointers.findIdx? fun entry =>
      entry.grantPtr != 0 && entry.driverNum == driverNum with
  | some index => .ok (BitVec.ofNat 32 index)
  | none => .error .outOfMemory

def enterCustomGrant (identifier : CustomGrantIdentifier) : Except ProcessError Usize :=
  if !p.isRunning then
    .error .inactiveApp
  else
    .ok (p.getCustomGrantAddress identifier)

end ProcessStandard

end TockKernel

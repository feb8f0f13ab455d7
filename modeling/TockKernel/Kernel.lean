import TockKernel.Grant
import TockKernel.Outcome

/-!
# The kernel loop

A model of `kernel/src/kernel.rs`, with `memop.rs` and `ipc.rs`. Everything
that is decided outside the kernel (timers, the scheduler, the system call
filter, the drivers, what a process stores while it runs) is read from a script,
so that a statement about all scripts is a statement about all surroundings of
the kernel.
-/

namespace TockKernel

variable {B : Board}

/-- The grants that the capsules of a board have declared, by number, and the
number of the grant of the IPC capsule if the board has one. -/
structure Platform where
  grants : ℕ → GrantDecl
  ipc : Option Usize

/-- What the kernel did, for processes by their index. -/
inductive LogEntry where
  | handled (index : ℕ) (syscall : Syscall) (rval : SyscallReturn)
  | functionCall (index : ℕ) (call : FunctionCall)
  | switchedTo (index : ℕ) (state : State)
  /-- The process was given a new identifier, the first step of `reset`. -/
  | restarted (index : ℕ)
  deriving DecidableEq, Repr

/-- The kernel with its process table. The log, newest entry first, is
written and never read. -/
structure KernelState (B : Board) where
  processes : ℕ → Option (ProcessStandard B)
  kernel : Kernel
  log : List LogEntry

abbrev KernelM (B : Board) := StateT (KernelState B) (Except Panic)

namespace KernelState

def setProcess (s : KernelState B) (index : ℕ) (p : ProcessStandard B) : KernelState B :=
  { s with processes := Function.update s.processes index (some p) }

def record (s : KernelState B) (entry : LogEntry) : KernelState B :=
  { s with log := entry :: s.log }

def getProcess (s : KernelState B) (processId : ProcessId) : Option (ProcessStandard B) :=
  (s.processes processId.index.toNat).filter fun p =>
    p.processId.identifier == processId.identifier

end KernelState

/-! ## Methods of a process in the table -/

def onProcess {α : Type} (index : ℕ) (default : α)
    (method : ProcessStandard B → α × ProcessStandard B) : KernelM B α :=
  fun s =>
    match s.processes index with
    | none => .ok (default, s)
    | some p => .ok ((method p).1, s.setProcess index (method p).2)

def modifyProcess (index : ℕ) (method : ProcessStandard B → ProcessStandard B) : KernelM B Unit :=
  onProcess index () fun p => ((), method p)

def onLifecycle (index : ℕ) (method : ProcessStandard B → Kernel →
      Except Panic (ProcessStandard B × Kernel)) : KernelM B Unit :=
  fun s =>
    match s.processes index with
    | none => .ok ((), s)
    | some p =>
      match method p s.kernel with
      | .error panic => .error panic
      | .ok (p, kernel) =>
        let s' := { s.setProcess index p with kernel := kernel }
        if kernel.processIdentifierMax = s.kernel.processIdentifierMax then
          .ok ((), s')
        else
          .ok ((), s'.record (.restarted index))

/-- Bytes of its own memory that a process or the boundary changes. -/
abbrev Stores := Usize → Option (BitVec 8)

def setSyscallReturnValue (index : ℕ) (rval : SyscallReturn)
    (stores : Stores) : KernelM B Unit := do
  modifyProcess index fun p => p.writeAppMemory stores
  onLifecycle index fun p => p.setSyscallReturnValue rval

def setProcessFunction (index : ℕ) (call : FunctionCall) (stores : Stores) : KernelM B Unit := do
  modify fun s => s.record (.functionCall index call)
  modifyProcess index fun p => p.writeAppMemory stores
  onLifecycle index fun p => p.setProcessFunction call

def setFaultState (index : ℕ) : KernelM B Unit :=
  onLifecycle index ProcessStandard.setFaultState

/-! ## Capsules -/

inductive CapsuleAction where
  | enter (grantNum : Usize) (processId : ProcessId) (closure : List GrantAction)
  /-- Commands 2 and 3 of the IPC capsule. -/
  | notify (target : ℕ) (caller : ProcessId) (kind : IpcUpcallType)

variable (platform : Platform)

def runCapsuleAction : CapsuleAction → KernelM B Unit
  | .enter grantNum processId closure => fun s =>
    match s.getProcess processId with
    | none => .ok ((), s)
    | some p =>
      match p.enter grantNum (platform.grants grantNum.toNat) closure with
      | .error panic => .error panic
      | .ok (_, p) => .ok ((), s.setProcess processId.index.toNat p)
  | .notify target caller kind =>
    if platform.ipc.isSome then
      modifyProcess target fun p => (p.enqueueTask (.ipc caller kind)).2
    else
      pure ()

def runCapsule (platform : Platform) : List CapsuleAction → KernelM B Unit
  | [] => pure ()
  | action :: actions => do
      runCapsuleAction platform action
      runCapsule platform actions

structure CommandReturn where
  inner : SyscallReturn

def CommandReturn.failure (rc : ErrorCode) : CommandReturn :=
  ⟨.failure rc⟩

/-- What a driver does when the kernel calls it during a system call: the
actions it takes and the result it returns. -/
structure DriverScript where
  allocateGrant : List CapsuleAction × Except ProcessError Unit
  command : List CapsuleAction × CommandReturn
  allowUserspaceReadable : List CapsuleAction ×
    (ProcessBuffer → Except (ProcessBuffer × ErrorCode) ProcessBuffer)

inductive AllocResult where
  | noAllocation
  | newAllocation
  | sameAllocation
  deriving DecidableEq, Repr

def grantAllocatedCount (index : ℕ) : KernelM B ℕ :=
  onProcess index 0 fun p => (p.grantAllocatedCount.getD 0, p)

def tryAllocateGrant (driver : DriverScript) (index : ℕ) : KernelM B AllocResult := do
  let beforeCount ← grantAllocatedCount index
  runCapsule platform driver.allocateGrant.1
  let afterCount ← grantAllocatedCount index
  match driver.allocateGrant.2 with
  | .ok () =>
    if beforeCount = afterCount then return .sameAllocation
    else return .newAllocation
  | .error _ => return .noAllocation

/-! ## Interprocess communication -/

/-- The upcall to run: services are notified under their own number, clients
under the number of the service. -/
def IpcUpcallType.toSchedule (kind : IpcUpcallType) (scheduleOnId calledFromId : Usize) : Usize :=
  match kind with
  | .service => scheduleOnId
  | .client => calledFromId

/-- The body of `IPC::schedule_upcall`, with the process to notify and the one
that called. Each grant is entered for as long as it is used. -/
def ipcNotify (grantNum : Usize) (decl : GrantDecl) (scheduleOn calledFrom : ProcessStandard B)
    (scheduleOnId calledFromId : Usize) (kind : IpcUpcallType) : Except Panic
      (Except ProcessError Unit × ProcessStandard B × ProcessStandard B) :=
  match scheduleOn.newProcessGrant grantNum decl with
  | (.error error, scheduleOn) => .ok (.error error, scheduleOn, calledFrom)
  | (.ok (), scheduleOn) =>
  match scheduleOn.enterGrant grantNum with
  | (.error _, _) => .error .grantReentered
  | (.ok scheduleOnPtr, scheduleOn) =>
  let scheduleOnData := KernelManagedLayout.readFromBase scheduleOn.memory scheduleOnPtr grantNum
  match calledFrom.newProcessGrant grantNum decl with
  | (.error error, calledFrom) =>
    .ok (.error error, scheduleOn.leaveGrant grantNum, calledFrom)
  | (.ok (), calledFrom) =>
  match calledFrom.enterGrant grantNum with
  | (.error _, _) => .error .grantReentered
  | (.ok calledFromPtr, calledFrom) =>
  let calledFromData := KernelManagedLayout.readFromBase calledFrom.memory calledFromPtr grantNum
  let (len, ptr, scheduleOn) :=
    match calledFrom.getReadwriteProcessbuffer calledFromData scheduleOnId with
    | .ok slice =>
      let ptr := if slice.len = 0 then 0 else slice.ptr
      (slice.len, ptr, (scheduleOn.addMpuRegion ptr slice.len slice.len).2)
    | .error _ => (0, 0, scheduleOn)
  let toSchedule := kind.toSchedule scheduleOnId calledFromId
  let scheduleOn := (scheduleOn.scheduleUpcall scheduleOnData decl.driverNum
    toSchedule calledFromId len ptr).2
  .ok (.ok (), scheduleOn.leaveGrant grantNum, calledFrom.leaveGrant grantNum)

def ipcScheduleUpcall (grantNum : Usize)
    (scheduleOn calledFrom : ProcessId) (kind : IpcUpcallType) :
    KernelM B (Except ProcessError Unit) := fun s =>
  match s.getProcess scheduleOn, s.getProcess calledFrom with
  | some p, some q =>
    if scheduleOn.index = calledFrom.index then
      .ok (.error .alreadyInUse, s)
    else
      match ipcNotify grantNum (platform.grants grantNum.toNat) p q
          scheduleOn.index calledFrom.index kind with
      | .error panic => .error panic
      | .ok (result, p, q) =>
        .ok (result, (s.setProcess scheduleOn.index.toNat p).setProcess calledFrom.index.toNat q)
  | _, _ => .ok (.error .noSuchApp, s)

/-! ## System calls -/

def memop (p : ProcessStandard B) (opType r1 : Usize) : SyscallReturn × ProcessStandard B :=
  match opType.toNat with
  | 0 =>
    match p.brk r1 with
    | (.ok _, p) => (.success, p)
    | (.error _, p) => (.failure .nomem, p)
  | 1 =>
    match p.sbrk r1 with
    | (.ok addr, p) => (.successU32 addr, p)
    | (.error _, p) => (.failure .nomem, p)
  | 2 => (.successU32 p.memStart, p)
  | 3 => (.successU32 p.memEnd, p)
  | 4 => (.successU32 p.flashStart, p)
  | 5 => (.successU32 p.flashEnd, p)
  | 6 => (.successU32 p.kernelMemoryBreak, p)
  | 7 => (.successU32 p.header.numberWriteableFlashRegions, p)
  | 8 =>
    let (offset, size) := p.header.getWriteableFlashRegion r1
    if size = 0 then (.failure .fail, p)
    else (.successU32 (p.flashStart + offset), p)
  | 9 =>
    let (offset, size) := p.header.getWriteableFlashRegion r1
    if size = 0 then (.failure .fail, p)
    else (.successU32 (p.flashStart + offset + size), p)
  | 10 => (.success, p.updateStackStartPointer r1)
  | 11 => (.success, p.updateHeapStartPointer r1)
  | _ => (.failure .nosupport, p)

def SyscallReturn.isSuccess : SyscallReturn → Bool
  | .success | .successU32 _ | .successU32U32 _ _ | .successU32U32U32 _ _ _
  | .successU64 _ | .successU32U64 _ _ | .allowReadWriteSuccess _ _
  | .userspaceReadableAllowSuccess _ _ | .allowReadOnlySuccess _ _
  | .subscribeSuccess _ _ | .yieldWaitFor _ _ _ => true
  | .failure _ | .failureU32 _ _ | .failureU32U32 _ _ _ | .failureU64 _ _
  | .allowReadWriteFailure _ _ _ | .userspaceReadableAllowFailure _ _ _
  | .allowReadOnlyFailure _ _ _ | .subscribeFailure _ _ _ => false

/-- Exchange a value in the grant of a driver. If the grant seems to be
missing, the driver is asked to allocate it, and if it did, the exchange is
tried once more. -/
def swapOrAllocate {β : Type} (driver : DriverScript)
    (index : ℕ) (swap : β → KernelM B (Except (β × ErrorCode) β))
    (value : β) : KernelM B (Except (β × ErrorCode) β) := do
  match ← swap value with
  | .error (value, .nomem) =>
    match ← tryAllocateGrant platform driver index with
    | .newAllocation => swap value
    | .noAllocation | .sameAllocation => return .error (value, .nomem)
  | result => return result

variable (index : ℕ) (driver : Option DriverScript)

def handleSubscribe (driverNumber subdriverNumber upcallPtr appdata : Usize) :
    KernelM B SyscallReturn := do
  let upcallId : UpcallId := ⟨driverNumber, subdriverNumber⟩
  let upcall : Upcall := ⟨upcallId, appdata, upcallPtr⟩
  let valid ← onProcess index true fun p =>
    (upcallPtr == 0 || p.isValidUpcallFunctionPointer upcallPtr, p)
  if !valid then
    return upcall.intoSubscribeFailure .inval
  match driver with
  | none => return upcall.intoSubscribeFailure .nodevice
  | some driver =>
    let swap := fun upcall => onProcess index (.error (upcall, .fail)) fun p => p.subscribe upcall
    match ← swapOrAllocate platform driver index swap upcall with
    | .ok old => return old.intoSubscribeSuccess
    | .error (upcall, err) => return upcall.intoSubscribeFailure err

def handleAllow
    (build : ProcessStandard B → Usize → Usize → Except ErrorCode ProcessBuffer × ProcessStandard B)
    (kind : SavedKind) (success : Usize → Usize → SyscallReturn)
    (failure : ErrorCode → Usize → Usize → SyscallReturn)
    (driverNumber subdriverNumber allowAddress allowSize : Usize) : KernelM B SyscallReturn := do
  match driver with
  | none => return failure .nodevice allowAddress allowSize
  | some driver =>
    let built ← onProcess index (.error .fail) fun p =>
      build p allowAddress allowSize
    match built with
    | .error allowError => return failure allowError allowAddress allowSize
    | .ok pbuf =>
      let swap := fun pbuf => onProcess index (.error (pbuf, .fail))
        fun p => p.allow kind driverNumber subdriverNumber pbuf
      match ← swapOrAllocate platform driver index swap pbuf with
      | .ok old => return success old.ptr old.len
      | .error (pbuf, err) => return failure err pbuf.ptr pbuf.len

def handleReadWriteAllow :
    (driverNumber subdriverNumber allowAddress allowSize : Usize) → KernelM B SyscallReturn :=
  handleAllow platform index driver ProcessStandard.buildReadwriteProcessBuffer .allowRw
    .allowReadWriteSuccess .allowReadWriteFailure

def handleReadOnlyAllow :
    (driverNumber subdriverNumber allowAddress allowSize : Usize) → KernelM B SyscallReturn :=
  handleAllow platform index driver ProcessStandard.buildReadonlyProcessBuffer .allowRo
    .allowReadOnlySuccess .allowReadOnlyFailure

def handleUserspaceReadableAllow (allowAddress allowSize : Usize) : KernelM B SyscallReturn := do
  match driver with
  | none =>
    return .userspaceReadableAllowFailure .nodevice allowAddress allowSize
  | some driver =>
    let built ← onProcess index (.error .fail) fun p =>
      p.buildReadwriteProcessBuffer allowAddress allowSize
    match built with
    | .error allowError =>
      return .userspaceReadableAllowFailure allowError allowAddress allowSize
    | .ok pbuf =>
      runCapsule platform driver.allowUserspaceReadable.1
      match driver.allowUserspaceReadable.2 pbuf with
      | .ok old => return .userspaceReadableAllowSuccess old.ptr old.len
      | .error (rejected, err) =>
        return .userspaceReadableAllowFailure err rejected.ptr rejected.len

def handleCommand : KernelM B CommandReturn := do
  match driver with
  | none => return CommandReturn.failure .nodevice
  | some driver =>
    runCapsule platform driver.command.1
    return driver.command.2

def handleYield (which paramA paramB : Usize) : KernelM B Unit := do
  match which.toNat with
  | 0 =>
    let hasTasks ← onProcess index false fun p => (p.hasTasks, p)
    modifyProcess index fun p =>
      (p.setByte paramA (if hasTasks then 1 else 0)).2
    if hasTasks then
      modifyProcess index ProcessStandard.setYieldedState
  | 1 => modifyProcess index ProcessStandard.setYieldedState
  | 2 => modifyProcess index fun p => p.setYieldedForState ⟨paramA, paramB⟩
  -- Not a valid yield; control goes back to the process.
  | _ => pure ()

structure SyscallScript where
  filter : Syscall → Except ErrorCode Unit
  /-- The driver, if the board has one for the driver number. -/
  driver : Option DriverScript
  /-- What the boundary stores when it returns to the process. -/
  stores : Stores

def returnFrom (syscall : Syscall) (script : SyscallScript)
    (rval : SyscallReturn) : KernelM B Unit := do
  modify fun s => s.record (.handled index syscall rval)
  setSyscallReturnValue index rval script.stores

def Syscall.filterable : Syscall → Bool
  | .yield _ _ _ | .exit _ _ | .memop _ _ => false
  | _ => true

def dispatchSyscall (syscall : Syscall) (script : SyscallScript) : KernelM B Unit := do
  match syscall with
  | .memop operand arg0 =>
    let rval ← onProcess index (.failure .fail) fun p => memop p operand arg0
    returnFrom index syscall script rval
  | .yield which paramA paramB => handleYield index which paramA paramB
  | .subscribe driverNumber subdriverNumber upcallPtr appdata =>
    let rval ← handleSubscribe platform index script.driver driverNumber
      subdriverNumber upcallPtr appdata
    -- Upcalls with the old function pointer must not be delivered any more.
    if rval.isSuccess then
      modifyProcess index fun p =>
        p.removePendingUpcalls ⟨driverNumber, subdriverNumber⟩
    returnFrom index syscall script rval
  | .command _ _ _ _ =>
    let cres ← handleCommand platform script.driver
    returnFrom index syscall script cres.inner
  | .readWriteAllow driverNumber subdriverNumber allowAddress allowSize =>
    let rval ← handleReadWriteAllow platform index script.driver
      driverNumber subdriverNumber allowAddress allowSize
    returnFrom index syscall script rval
  | .userspaceReadableAllow _ _ allowAddress allowSize =>
    let rval ← handleUserspaceReadableAllow platform index script.driver allowAddress allowSize
    returnFrom index syscall script rval
  | .readOnlyAllow driverNumber subdriverNumber allowAddress allowSize =>
    let rval ← handleReadOnlyAllow platform index script.driver
      driverNumber subdriverNumber allowAddress allowSize
    returnFrom index syscall script rval
  | .exit which completionCode =>
    match which.toNat with
    | 0 => modifyProcess index fun p => p.terminate (some completionCode)
    | 1 => onLifecycle index fun p kernel =>
        .ok (p.tryRestart (some completionCode) kernel)
    | _ => returnFrom index syscall script (.failure .nosupport)

def handleSyscall (syscall : Syscall) (script : SyscallScript) : KernelM B Unit := do
  modifyProcess index fun p => p.debugSyscallCalled syscall
  if syscall.filterable then
    match script.filter syscall with
    | .error response =>
      returnFrom index syscall script (.failure response)
    | .ok () => dispatchSyscall platform index syscall script
  else
    dispatchSyscall platform index syscall script

/-! ## Running a process -/

inductive StoppedExecutingReason where
  | noWorkLeft
  | stopped
  | timesliceExpired
  | kernelPreemption
  deriving DecidableEq, Repr

def minQuantaThresholdUs : BitVec 32 := 500

/-- What the surroundings of the kernel do during one turn of the loop of
`do_process`. -/
structure Turn where
  /-- What is left of the timeslice at the start of the turn. -/
  remainingUs : Option (BitVec 32)
  continueProcess : Bool
  /-- What the process stores if it is switched to. -/
  stores : Stores
  /-- Whether `process_fault_hook` deals with a fault. -/
  faultHandled : Bool
  /-- Whether an interrupt of the process was the end of its timeslice. -/
  expired : Bool
  script : SyscallScript

/-- Switch to a process that is in the `Running` state, and handle what it
returned with. A result ends the loop. -/
def runProcess (turn : Turn) : KernelM B (Option StoppedExecutingReason) := do
  modifyProcess index ProcessStandard.setupMpu
  let state ← onProcess index .terminated fun p => (p.state, p)
  modify fun s => s.record (.switchedTo index state)
  modifyProcess index fun p => p.writeAppMemory turn.stores
  let contextSwitchReason ← onProcess index none ProcessStandard.switchTo
  match contextSwitchReason with
  | some .fault =>
    if !turn.faultHandled then
      setFaultState index
    return none
  | some (.syscallFired syscall) =>
    handleSyscall platform index syscall turn.script
    return none
  | some .interrupted =>
    if turn.expired then
      modifyProcess index ProcessStandard.debugTimesliceExpired
      return some .timesliceExpired
    else
      return none
  | none =>
    setFaultState index
    return none

def runTask (turn : Turn) : KernelM B (Option StoppedExecutingReason) := do
  match ← onProcess index none ProcessStandard.dequeueTask with
  | none => return some .noWorkLeft
  -- Events of null upcalls do not wake the process.
  | some (.returnValue _) => return some .noWorkLeft
  | some (.functionCall call) =>
    setProcessFunction index call turn.script.stores
    return none
  | some (.ipc caller kind) =>
    match platform.ipc with
    | none => throw .ipcTaskWithoutIpc
    | some grantNum =>
      let processId ← onProcess index caller fun p => (p.processId, p)
      let _ ← ipcScheduleUpcall platform grantNum processId caller kind
      return none

def runWaiting (upcallId : UpcallId) (turn : Turn) : KernelM B (Option StoppedExecutingReason) := do
  match ← onProcess index none fun p => p.removeUpcall upcallId with
  | none => return some .noWorkLeft
  | some (.returnValue rv) =>
    setSyscallReturnValue index (.yieldWaitFor rv.argument0 rv.argument1 rv.argument2)
      turn.script.stores
    return none
  | some (.functionCall call) =>
    setSyscallReturnValue index (.yieldWaitFor call.argument0 call.argument1 call.argument2)
      turn.script.stores
    return none
  | some (.ipc _ _) => throw .ipcWhileWaiting

def doProcessTurn (turn : Turn) : KernelM B (Option StoppedExecutingReason) := do
  if turn.remainingUs.all fun us => us ≤ minQuantaThresholdUs then
    modifyProcess index ProcessStandard.debugTimesliceExpired
    return some .timesliceExpired
  if !turn.continueProcess then
    return some .kernelPreemption
  if !(← onProcess index false fun p => (p.ready, p)) then
    return some .noWorkLeft
  match ← onProcess index .terminated fun p => (p.state, p) with
  | .running => runProcess platform index turn
  | .yielded => runTask platform index turn
  | .yieldedFor upcallId => runWaiting index upcallId turn
  | .faulted | .terminated => throw .unrunnableProcess
  | .stopped _ => return some .stopped

/-- `do_process`, as long as the script goes. -/
def doProcess (platform : Platform) (index : ℕ) : List Turn → KernelM B StoppedExecutingReason
  | [] => return .kernelPreemption
  | turn :: turns => do
      match ← doProcessTurn platform index turn with
      | some reason => return reason
      | none => doProcess platform index turns

/-! ## Runs of the kernel -/

/-- The calls of the process console and of fault handlers. -/
inductive ProcessManagement where
  | stop
  | resume
  | terminate (completionCode : Option (BitVec 32))
  | tryRestart (completionCode : Option (BitVec 32))
  | start
  | setFaultState

def manageProcess : ProcessManagement → KernelM B Unit
  | .stop => modifyProcess index ProcessStandard.stop
  | .resume => modifyProcess index ProcessStandard.resume
  | .terminate completionCode =>
    modifyProcess index fun p => p.terminate completionCode
  | .tryRestart completionCode => onLifecycle index fun p kernel =>
    .ok (p.tryRestart completionCode kernel)
  | .start => onLifecycle index fun p kernel => .ok (p.start kernel)
  | .setFaultState => setFaultState index

inductive KernelEvent where
  /-- Capsules run, for example in an interrupt handler. -/
  | capsules (actions : List CapsuleAction)
  | manage (index : ℕ) (operation : ProcessManagement)
  | doProcess (index : ℕ) (turns : List Turn)

def handleEvent : KernelEvent → KernelM B Unit
  | .capsules actions => runCapsule platform actions
  | .manage index operation => manageProcess index operation
  | .doProcess index turns => do
      let _ ← doProcess platform index turns

def runKernel (platform : Platform) : List KernelEvent → KernelM B Unit
  | [] => pure ()
  | event :: events => do
      handleEvent platform event
      runKernel platform events

end TockKernel

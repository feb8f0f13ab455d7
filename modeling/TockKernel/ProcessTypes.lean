import TockKernel.Mpu

/-!
# Types shared by processes and system calls

The enumerations and records of `kernel/src/process.rs`, `syscall.rs`,
`upcall.rs` and `errorcode.rs`, and the traits through which the kernel reaches
the hardware.
-/

namespace TockKernel

inductive ErrorCode where
  | fail
  | busy
  | already
  | off
  | reserve
  | inval
  | size
  | cancel
  | nomem
  | nosupport
  | nodevice
  | uninstalled
  | noack
  deriving DecidableEq, Repr

inductive ProcessError where
  | noSuchApp
  | outOfMemory
  | addressOutOfBounds
  | inactiveApp
  | kernelError
  | alreadyInUse
  deriving DecidableEq, Repr

def ProcessError.toErrorCode : ProcessError → ErrorCode
  | .outOfMemory => .nomem
  | .addressOutOfBounds => .inval
  | .noSuchApp => .inval
  | .inactiveApp => .fail
  | .kernelError => .fail
  | .alreadyInUse => .fail

structure ProcessId where
  index : Usize
  identifier : Usize
  deriving DecidableEq, Repr

structure UpcallId where
  driverNum : Usize
  subscribeNum : Usize
  deriving DecidableEq, Repr

/-! ## Tasks -/

inductive FunctionCallSource where
  | kernel
  | driver (id : UpcallId)
  deriving DecidableEq, Repr

structure FunctionCall where
  source : FunctionCallSource
  argument0 : Usize
  argument1 : Usize
  argument2 : Usize
  argument3 : Usize
  pc : Usize
  deriving DecidableEq, Repr

structure ReturnArguments where
  upcallId : UpcallId
  argument0 : Usize
  argument1 : Usize
  argument2 : Usize
  deriving DecidableEq, Repr

inductive IpcUpcallType where
  | service
  | client
  deriving DecidableEq, Repr

inductive Task where
  | functionCall (call : FunctionCall)
  | returnValue (arguments : ReturnArguments)
  | ipc (caller : ProcessId) (kind : IpcUpcallType)
  deriving DecidableEq, Repr

/-! ## The state of a process -/

inductive StoppedState where
  | running
  | yielded
  | yieldedFor (id : UpcallId)
  deriving DecidableEq, Repr

inductive State where
  | running
  | yielded
  | yieldedFor (id : UpcallId)
  | stopped (state : StoppedState)
  | faulted
  | terminated
  deriving DecidableEq, Repr

inductive FaultAction where
  | panic
  | restart
  | stop
  deriving DecidableEq, Repr

/-- A `ReadWriteProcessBuffer` or `ReadOnlyProcessBuffer`. -/
structure ProcessBuffer where
  ptr : Usize
  len : Usize
  processId : ProcessId
  deriving DecidableEq

structure CustomGrantIdentifier where
  offset : Usize
  deriving DecidableEq

/-! ## System calls -/

inductive Syscall where
  | yield (which paramA paramB : Usize)
  | subscribe (driverNumber subdriverNumber upcallPtr appdata : Usize)
  | command (driverNumber subdriverNumber arg0 arg1 : Usize)
  | readWriteAllow (driverNumber subdriverNumber allowAddress allowSize : Usize)
  | userspaceReadableAllow (driverNumber subdriverNumber allowAddress allowSize : Usize)
  | readOnlyAllow (driverNumber subdriverNumber allowAddress allowSize : Usize)
  | memop (operand arg0 : Usize)
  | exit (which completionCode : Usize)
  deriving DecidableEq, Repr

inductive SyscallReturn where
  | failure (err : ErrorCode)
  | failureU32 (err : ErrorCode) (data0 : BitVec 32)
  | failureU32U32 (err : ErrorCode) (data0 data1 : BitVec 32)
  | failureU64 (err : ErrorCode) (data0 : BitVec 64)
  | success
  | successU32 (data0 : BitVec 32)
  | successU32U32 (data0 data1 : BitVec 32)
  | successU32U32U32 (data0 data1 data2 : BitVec 32)
  | successU64 (data0 : BitVec 64)
  | successU32U64 (data0 : BitVec 32) (data1 : BitVec 64)
  | allowReadWriteSuccess (ptr len : Usize)
  | allowReadWriteFailure (err : ErrorCode) (ptr len : Usize)
  | userspaceReadableAllowSuccess (ptr len : Usize)
  | userspaceReadableAllowFailure (err : ErrorCode) (ptr len : Usize)
  | allowReadOnlySuccess (ptr len : Usize)
  | allowReadOnlyFailure (err : ErrorCode) (ptr len : Usize)
  | subscribeSuccess (ptr data : Usize)
  | subscribeFailure (err : ErrorCode) (ptr data : Usize)
  | yieldWaitFor (data0 data1 data2 : Usize)
  deriving DecidableEq, Repr

inductive ContextSwitchReason where
  | syscallFired (syscall : Syscall)
  | fault
  | interrupted
  deriving DecidableEq, Repr

/-- The `UserspaceKernelBoundary` trait. What a process does between two
context switches is up to `switchToProcess`: nothing is assumed about it or
about the stored state it acts on. -/
structure UserspaceKernelBoundary where
  StoredState : Type
  default : StoredState
  initialProcessAppBrkSize : Usize
  initializeProcess : (accessibleMemoryStart appBrk : Usize) → StoredState →
    Except Unit Unit × StoredState
  setSyscallReturnValue : (accessibleMemoryStart appBrk : Usize) → StoredState → SyscallReturn →
    Except Unit Unit × StoredState
  setProcessFunction : (accessibleMemoryStart appBrk : Usize) → StoredState → FunctionCall →
    Except Unit Unit × StoredState
  switchToProcess : (accessibleMemoryStart appBrk : Usize) → StoredState →
    (ContextSwitchReason × Option Usize) × StoredState

/-- A chip, with the sizes that the types stored in process memory have on
it. -/
structure Chip where
  mpu : Mpu
  ukb : UserspaceKernelBoundary
  /-- `mem::size_of::<Task>()`. -/
  sizeOfTask : Usize
  /-- `mem::size_of::<ProcessStandard<C>>()`. -/
  sizeOfProcessStandard : Usize

end TockKernel

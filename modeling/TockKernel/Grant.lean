import TockKernel.ProcessLifecycle
import TockKernel.ByteMemory

/-!
# Grants

A model of `kernel/src/grant.rs` and `kernel/src/upcall.rs`. A grant is a
stretch of process memory that a capsule has declared: a word of counters, three
arrays of upcalls and buffers that the process passed to the driver, and the
data of the capsule. The arrays are found by raw offsets from the start of the
grant.
-/

namespace TockKernel

open ByteMemory

/-! ## Upcalls -/

/-- The function pointer is an `Option<NonNull<()>>`, which is a null pointer
for `None`. -/
structure Upcall where
  upcallId : UpcallId
  appdata : Usize
  fnPtr : Usize
  deriving DecidableEq, Repr

inductive UpcallError where
  | invalidSubscribeNum
  | queueFull
  | kernelError
  deriving DecidableEq, Repr

namespace Upcall

variable (upcall : Upcall)

/-- The task that is queued for an upcall: events of null upcalls are kept for
processes that wait for them. -/
def task (r0 r1 r2 : Usize) : Task :=
  if upcall.fnPtr = 0 then
    .returnValue ⟨upcall.upcallId, r0, r1, r2⟩
  else
    .functionCall {
      source := .driver upcall.upcallId
      argument0 := r0
      argument1 := r1
      argument2 := r2
      argument3 := upcall.appdata
      pc := upcall.fnPtr }

def schedule {B : Board} (p : ProcessStandard B)
    (r0 r1 r2 : Usize) : Except UpcallError Unit × ProcessStandard B :=
  match p.enqueueTask (upcall.task r0 r1 r2) with
  | (.ok (), p) => (.ok (), p)
  | (.error .nomem, p) => (.error .queueFull, p)
  | (.error _, p) => (.error .kernelError, p)

def intoSubscribeSuccess : SyscallReturn :=
  .subscribeSuccess upcall.fnPtr upcall.appdata

def intoSubscribeFailure (err : ErrorCode) : SyscallReturn :=
  .subscribeFailure err upcall.fnPtr upcall.appdata

end Upcall

/-! ## Layout of a grant -/

/-- A `Grant` as a capsule declared it, with the size and the alignment of its
data type. -/
structure GrantDecl where
  driverNum : Usize
  upcalls : BitVec 8
  allowRos : BitVec 8
  allowRws : BitVec 8
  grantTSize : Usize
  grantTAlign : Usize
  /-- `T::default()`, as bytes. -/
  grantTDefault : Usize → BitVec 8
  /-- The limits that Rust puts on the size and alignment of a type. -/
  grantTSize_lt : grantTSize.toNat < 2 ^ 31
  grantTAlign_eq : ∃ k ≤ 29, grantTAlign.toNat = 2 ^ k

namespace GrantDecl

variable (decl : GrantDecl)

def kernelManagedSize : Usize :=
  4 + decl.upcalls.setWidth 32 * 8 + decl.allowRos.setWidth 32 * 8 + decl.allowRws.setWidth 32 * 8

def grantSize : Usize :=
  let grantTAlignMask := decl.grantTAlign - 1
  let padding :=
    (decl.grantTAlign - (decl.kernelManagedSize &&& grantTAlignMask)) &&& grantTAlignMask
  decl.kernelManagedSize + padding + decl.grantTSize

def grantAlign : Usize :=
  cmpMax 4 decl.grantTAlign

/-- `offset_of_grant_data_t` for the size that `grant_size` returns: the data
of the capsule comes last. -/
def offsetOfGrantDataT (basePtr : Usize) : Usize :=
  basePtr + (decl.grantSize - decl.grantTSize)

def counter : Usize :=
  0#8 ++ decl.allowRws ++ decl.allowRos ++ decl.upcalls

end GrantDecl

/-- The three arrays the kernel keeps in a grant. -/
inductive SavedKind where
  | upcall
  | allowRo
  | allowRw
  deriving DecidableEq, Repr

structure KernelManagedLayout where
  grantNum : Usize
  countersPtr : Usize
  upcallsArray : Usize
  allowRoArray : Usize
  allowRwArray : Usize
  deriving DecidableEq, Repr

namespace KernelManagedLayout

def readFromBase (memory : Memory 32) (basePtr grantNum : Usize) : KernelManagedLayout :=
  let countersVal := readWord memory basePtr
  let upcallsNum := countersVal &&& 0xFF
  let allowRoNum := countersVal >>> 8 &&& 0xFF
  let upcallsArray := basePtr + 4
  let allowRoArray := upcallsArray + upcallsNum * 8
  let allowRwArray := allowRoArray + allowRoNum * 8
  ⟨grantNum, basePtr, upcallsArray, allowRoArray, allowRwArray⟩

variable (layout : KernelManagedLayout)

def getCounterOffset (memory : Memory 32) (offsetBits : ℕ) : Usize :=
  readWord memory layout.countersPtr >>> offsetBits &&& 0xFF

/-- `get_upcalls_number`, `get_allow_ro_number` and `get_allow_rw_number`. -/
def number (memory : Memory 32) : SavedKind → Usize
  | .upcall => layout.getCounterOffset memory 0
  | .allowRo => layout.getCounterOffset memory 8
  | .allowRw => layout.getCounterOffset memory 16

def array : SavedKind → Usize
  | .upcall => layout.upcallsArray
  | .allowRo => layout.allowRoArray
  | .allowRw => layout.allowRwArray

def slot (kind : SavedKind) (num : Usize) : Usize :=
  layout.array kind + num * 8

/-- `write_default_array`: null upcalls and empty buffers are all zero. -/
def writeDefaultArray (memory : Memory 32) (base : Usize) : ℕ → Memory 32
  | 0 => memory
  | num + 1 =>
    writePair (writeDefaultArray memory base num) (base + BitVec.ofNat 32 num * 8) (0, 0)

def initializeFromCounts (memory : Memory 32) (basePtr : Usize) (decl : GrantDecl) : Memory 32 :=
  let upcallsArray := basePtr + 4
  let allowRoArray := upcallsArray + decl.upcalls.setWidth 32 * 8
  let allowRwArray := allowRoArray + decl.allowRos.setWidth 32 * 8
  let memory := writeWord memory basePtr decl.counter
  let memory := writeDefaultArray memory upcallsArray decl.upcalls.toNat
  let memory := writeDefaultArray memory allowRoArray decl.allowRos.toNat
  writeDefaultArray memory allowRwArray decl.allowRws.toNat

def fromCounts (basePtr grantNum : Usize) (decl : GrantDecl) : KernelManagedLayout :=
  let upcallsArray := basePtr + 4
  let allowRoArray := upcallsArray + decl.upcalls.setWidth 32 * 8
  let allowRwArray := allowRoArray + decl.allowRos.setWidth 32 * 8
  ⟨grantNum, basePtr, upcallsArray, allowRoArray, allowRwArray⟩

end KernelManagedLayout

namespace ProcessStandard

variable {B : Board}

/-! ## What the kernel keeps for the process -/

variable (p : ProcessStandard B)

def enterGrantKernelManaged (driverNum : Usize) :
    Except ErrorCode KernelManagedLayout × ProcessStandard B :=
  match p.lookupGrantFromDriverNum driverNum with
  | .error error => (.error error.toErrorCode, p)
  | .ok grantNum =>
    match p.grantIsAllocated grantNum with
    | some false => (.error .nomem, p)
    | none => (.error .fail, p)
    | some true =>
      match p.enterGrant grantNum with
      | (.error _, p) => (.error .nomem, p)
      | (.ok grantBasePtr, p) =>
        (.ok (.readFromBase p.memory grantBasePtr grantNum), p)

/-- The common part of `subscribe`, `allow_ro` and `allow_rw`. The grant is
left again when the layout goes out of scope. -/
def swapSaved (kind : SavedKind) (driverNum num : Usize) (new : Usize × Usize) :
    Except ErrorCode (Usize × Usize) × ProcessStandard B :=
  match p.enterGrantKernelManaged driverNum with
  | (.error error, p) => (.error error, p)
  | (.ok layout, p) =>
    if num < layout.number p.memory kind then
      let old := readPair p.memory (layout.slot kind num)
      let p := { p with
        memory := writePair p.memory (layout.slot kind num) new }
      (.ok old, p.leaveGrant layout.grantNum)
    else
      (.error .nosupport, p.leaveGrant layout.grantNum)

def subscribe (upcall : Upcall) : Except (Upcall × ErrorCode) Upcall × ProcessStandard B :=
  match p.swapSaved .upcall upcall.upcallId.driverNum
      upcall.upcallId.subscribeNum (upcall.appdata, upcall.fnPtr) with
  | (.ok (appdata, fnPtr), p) => (.ok ⟨upcall.upcallId, appdata, fnPtr⟩, p)
  | (.error error, p) => (.error (upcall, error), p)

/-- `allow_ro` and `allow_rw`, which differ only in the array they use. -/
def allow (kind : SavedKind) (driverNum allowNum : Usize) (buffer : ProcessBuffer) :
    Except (ProcessBuffer × ErrorCode) ProcessBuffer × ProcessStandard B :=
  match p.swapSaved kind driverNum allowNum (buffer.ptr, buffer.len) with
  | (.ok (ptr, len), p) => (.ok ⟨ptr, len, p.processId⟩, p)
  | (.error error, p) => (.error (buffer, error), p)

def allowRo (p : ProcessStandard B) :=
  p.allow .allowRo

def allowRw (p : ProcessStandard B) :=
  p.allow .allowRw

/-! ## Grants in the hands of capsules -/

/-- `ProcessGrant::new`: find the grant of a capsule, or allocate and
initialise it. -/
def newProcessGrant (grantNum : Usize)
    (decl : GrantDecl) : Except ProcessError Unit × ProcessStandard B :=
  match p.grantIsAllocated grantNum with
  | none => (.error .inactiveApp, p)
  | some true => (.ok (), p)
  | some false =>
    match p.allocateGrant grantNum decl.driverNum decl.grantSize decl.grantAlign with
    | (.error (), p) => (.error .outOfMemory, p)
    | (.ok (), p) =>
      match p.enterGrant grantNum with
      | (.error error, p) => (.error error, p)
      | (.ok grantPtr, p) =>
        let p := { p with
          memory := KernelManagedLayout.initializeFromCounts p.memory grantPtr decl }
        let p := p.leaveGrant grantNum
        let grantData := grantPtr + (decl.grantSize - decl.grantTSize)
        (.ok (), { p with
          memory := writeBytes p.memory grantData decl.grantTSize decl.grantTDefault })

def scheduleUpcall (layout : KernelManagedLayout)
    (driverNum subscribeNum r0 r1 r2 : Usize) : Except UpcallError Unit × ProcessStandard B :=
  if subscribeNum < layout.number p.memory .upcall then
    let (appdata, fnPtr) := readPair p.memory (layout.slot .upcall subscribeNum)
    Upcall.schedule ⟨⟨driverNum, subscribeNum⟩, appdata, fnPtr⟩ p r0 r1 r2
  else
    (.error .invalidSubscribeNum, p)

def getReadwriteProcessbuffer
    (layout : KernelManagedLayout) (allowRwNum : Usize) : Except ProcessError ProcessBuffer :=
  if allowRwNum < layout.number p.memory .allowRw then
    let (ptr, len) := readPair p.memory (layout.slot .allowRw allowRwNum)
    .ok ⟨ptr, len, p.processId⟩
  else
    .error .addressOutOfBounds

end ProcessStandard

/-- What a capsule does while it has entered a grant of a process. -/
inductive GrantAction where
  | scheduleUpcall (subscribeNum r0 r1 r2 : Usize)
  /-- Stores to its own data, given by their offsets. -/
  | setData (bytes : Usize → BitVec 8)
  /-- A custom grant obtained from the allocator. -/
  | allocate (size align : Usize)

namespace GrantAction

variable {B : Board}

def apply (decl : GrantDecl) (layout : KernelManagedLayout)
    (p : ProcessStandard B) : GrantAction → ProcessStandard B
  | .scheduleUpcall subscribeNum r0 r1 r2 =>
    (p.scheduleUpcall layout decl.driverNum subscribeNum r0 r1 r2).2
  | .setData bytes =>
    { p with
      memory := writeBytes p.memory (layout.countersPtr + (decl.grantSize - decl.grantTSize))
        decl.grantTSize bytes }
  | .allocate size align => (p.allocateCustomGrant size align).2

end GrantAction

namespace ProcessStandard

variable {B : Board}

/-- `access_grant`: run a closure of the capsule that owns the grant. Nothing
happens, and the kernel panics, if the grant is entered already. -/
def accessGrant (p : ProcessStandard B) (grantNum : Usize) (decl : GrantDecl)
    (closure : List GrantAction) : Except Panic (ProcessStandard B) :=
  match p.enterGrant grantNum with
  | (.error _, _) => .error .grantReentered
  | (.ok grantPtr, p) =>
    let layout := KernelManagedLayout.readFromBase p.memory grantPtr grantNum
    .ok ((closure.foldl (GrantAction.apply decl layout) p).leaveGrant grantNum)

def enter (p : ProcessStandard B) (grantNum : Usize) (decl : GrantDecl)
    (closure : List GrantAction) : Except Panic (Except ProcessError Unit × ProcessStandard B) :=
  match p.newProcessGrant grantNum decl with
  | (.error error, p) => .ok (.error error, p)
  | (.ok (), p) => do return (.ok (), ← p.accessGrant grantNum decl closure)

end ProcessStandard

end TockKernel

import TockKernel.ProcessLifecycle

/-!
# Operations on the memory of a process

The calls that move the breaks of a process or hand out parts of its memory, as
one type of operations, and for each of them a description of everything it can
do when the MPU keeps its contract.
-/

namespace TockKernel

/-- The calls on a process that change its memory layout. -/
inductive MemoryOp where
  | brk (newBreak : Usize)
  | sbrk (increment : Usize)
  | buildReadwriteProcessBuffer (bufStartAddr size : Usize)
  | buildReadonlyProcessBuffer (bufStartAddr size : Usize)
  | allocateGrant (grantNum driverNum size align : Usize)
  | allocateCustomGrant (size align : Usize)
  | terminate (completionCode : Option (BitVec 32))
  | tryRestart (completionCode : Option (BitVec 32))
  | start

inductive MemoryResult where
  | failed
  | returned
  | oldBreak (address : Usize)
  | buffer (accepted : ProcessBuffer)
  | customGrant (identifier : CustomGrantIdentifier) (ptr : Usize)

namespace MemoryResult

def ofBreak : Except ProcessError Usize → MemoryResult
  | .ok address => .oldBreak address
  | .error _ => .failed

def ofBuffer : Except ErrorCode ProcessBuffer → MemoryResult
  | .ok accepted => .buffer accepted
  | .error _ => .failed

def ofGrant : Except Unit Unit → MemoryResult
  | .ok () => .returned
  | .error () => .failed

def ofCustomGrant : Except Unit (CustomGrantIdentifier × Usize) → MemoryResult
  | .ok (identifier, ptr) => .customGrant identifier ptr
  | .error () => .failed

end MemoryResult

variable {B : Board}

def MemoryOp.apply (op : MemoryOp) (p : ProcessStandard B) (kernel : Kernel) :
    MemoryResult × ProcessStandard B × Kernel :=
  match op with
  | .brk newBreak =>
    let r := p.brk newBreak
    (.ofBreak r.1, r.2, kernel)
  | .sbrk increment =>
    let r := p.sbrk increment
    (.ofBreak r.1, r.2, kernel)
  | .buildReadwriteProcessBuffer bufStartAddr size =>
    let r := p.buildReadwriteProcessBuffer bufStartAddr size
    (.ofBuffer r.1, r.2, kernel)
  | .buildReadonlyProcessBuffer bufStartAddr size =>
    let r := p.buildReadonlyProcessBuffer bufStartAddr size
    (.ofBuffer r.1, r.2, kernel)
  | .allocateGrant grantNum driverNum size align =>
    let r := p.allocateGrant grantNum driverNum size align
    (.ofGrant r.1, r.2, kernel)
  | .allocateCustomGrant size align =>
    let r := p.allocateCustomGrant size align
    (.ofCustomGrant r.1, r.2, kernel)
  | .terminate completionCode =>
    (.returned, p.terminate completionCode, kernel)
  | .tryRestart completionCode =>
    (.returned, p.tryRestart completionCode kernel)
  | .start =>
    (.returned, p.start kernel)

def MemoryOp.run : List MemoryOp → ProcessStandard B × Kernel → ProcessStandard B × Kernel
  | [], s => s
  | op :: ops, s => run ops (op.apply s.1 s.2).2

namespace ProcessStandard


private theorem with_mpuConfig_self {p : ProcessStandard B} {config : B.chip.mpu.MpuConfig}
    (hcfg : p.mpuConfig = some config) : { p with mpuConfig := some config } = p := by
  rw [← hcfg]

/-! ## What each call can do -/

variable (p : ProcessStandard B)

theorem brk_cases (contract : B.chip.mpu.Contract) (newBreak : Usize) :
    (∃ error, p.brk newBreak = (.error error, p)) ∨
    ∃ config config', p.isRunning ∧ p.mpuConfig = some config ∧
      p.allowHighWaterMark ≤ newBreak ∧ newBreak < p.memEnd ∧
      newBreak ≤ p.kernelMemoryBreak ∧
      B.chip.mpu.updateAppMemoryRegion newBreak p.kernelMemoryBreak
        .readWriteOnly config = (.ok (), config') ∧
      p.brk newBreak = (.ok p.appBreak, { p with
        appBreak := newBreak
        mpuConfig := some (B.chip.mpu.configureMpu config') }) := by
  unfold brk
  cases hrun : p.isRunning with
  | false => exact .inl ⟨.inactiveApp, rfl⟩
  | true =>
    cases hcfg : p.mpuConfig with
    | none => exact .inl ⟨.kernelError, rfl⟩
    | some config =>
      simp only
      by_cases hbounds : newBreak < p.allowHighWaterMark ∨ newBreak ≥ p.memEnd
      · rw [if_pos hbounds]
        exact .inl ⟨.addressOutOfBounds, rfl⟩
      rw [if_neg hbounds]
      by_cases hkernel : newBreak > p.kernelMemoryBreak
      · rw [if_pos hkernel]
        exact .inl ⟨.outOfMemory, rfl⟩
      rw [if_neg hkernel]
      push Not at hbounds
      rcases hupdate : B.chip.mpu.updateAppMemoryRegion newBreak
        p.kernelMemoryBreak .readWriteOnly config with ⟨result, config'⟩
      cases result with
      | error _ =>
        obtain rfl := contract.update_error _ _ _ _ _ hupdate
        exact .inl ⟨.outOfMemory, Prod.ext rfl (with_mpuConfig_self hcfg)⟩
      | ok _ =>
        refine .inr ⟨config, config', trivial, rfl, ?_, ?_, ?_, hupdate, rfl⟩
        · exact BitVec.not_lt.mp hbounds.1
        · exact BitVec.not_le.mp hbounds.2
        · exact BitVec.not_lt.mp hkernel

theorem sbrk_eq_brk (increment : Usize) : p.sbrk increment = p.brk (p.appBreak + increment) := by
  unfold sbrk
  cases hrun : p.isRunning with
  | false => simp [brk, hrun]
  | true => rfl

def nextGrantAddress (size align : Usize) : Usize :=
  (p.kernelMemoryBreak - size) &&& ~~~(cmpMax align 2 - 1)

theorem allocateInGrantRegionInternal_cases (contract : B.chip.mpu.Contract) (size align : Usize) :
    p.allocateInGrantRegionInternal size align = (none, p) ∨
    ∃ config config', p.mpuConfig = some config ∧ p.appBreak ≤ p.nextGrantAddress size align ∧
      p.nextGrantAddress size align ≤ p.kernelMemoryBreak ∧
      B.chip.mpu.updateAppMemoryRegion p.appBreak
        (p.nextGrantAddress size align) .readWriteOnly config = (.ok (), config') ∧
      p.allocateInGrantRegionInternal size align =
        (some (p.nextGrantAddress size align), { p with
          kernelMemoryBreak := p.nextGrantAddress size align
          mpuConfig := some config' }) := by
  unfold allocateInGrantRegionInternal
  cases hcfg : p.mpuConfig with
  | none => exact .inl rfl
  | some config =>
    simp only
    rw [← nextGrantAddress]
    by_cases hlow : p.nextGrantAddress size align < p.appBreak
    · rw [if_pos hlow]
      exact .inl rfl
    rw [if_neg hlow]
    by_cases hhigh : p.nextGrantAddress size align > p.kernelMemoryBreak
    · rw [if_pos hhigh]
      exact .inl rfl
    rw [if_neg hhigh]
    rcases hupdate : B.chip.mpu.updateAppMemoryRegion p.appBreak
      (p.nextGrantAddress size align) .readWriteOnly config with ⟨result, config'⟩
    cases result with
    | error _ =>
      obtain rfl := contract.update_error _ _ _ _ _ hupdate
      exact .inl (Prod.ext rfl (with_mpuConfig_self hcfg))
    | ok _ =>
      refine .inr ⟨config, config', rfl, ?_, ?_, hupdate, rfl⟩
      · exact BitVec.not_lt.mp hlow
      · exact BitVec.not_lt.mp hhigh

theorem buildReadwriteProcessBuffer_cases (bufStartAddr size : Usize) :
    (∃ error, p.buildReadwriteProcessBuffer bufStartAddr size = (.error error, p)) ∨
    (p.buildReadwriteProcessBuffer bufStartAddr size = (.ok ⟨bufStartAddr, 0, p.processId⟩, p)) ∨
    (p.isRunning ∧ size ≠ 0 ∧ p.inAppOwnedMemory bufStartAddr size ∧
      p.buildReadwriteProcessBuffer bufStartAddr size = (.ok ⟨bufStartAddr, size, p.processId⟩,
          p.raiseAllowHighWaterMark bufStartAddr size)) := by
  unfold buildReadwriteProcessBuffer
  cases hrun : p.isRunning with
  | false => exact .inl ⟨.fail, rfl⟩
  | true =>
    simp only [Bool.not_true, Bool.false_eq_true]
    by_cases hsize : size = 0
    · rw [if_pos hsize]
      exact .inr (.inl rfl)
    rw [if_neg hsize]
    cases howned : p.inAppOwnedMemory bufStartAddr size with
    | true => exact .inr (.inr ⟨trivial, hsize, rfl, rfl⟩)
    | false => exact .inl ⟨.inval, rfl⟩

theorem buildReadonlyProcessBuffer_cases (bufStartAddr size : Usize) :
    (∃ error, p.buildReadonlyProcessBuffer bufStartAddr size = (.error error, p)) ∨
    (p.buildReadonlyProcessBuffer bufStartAddr size = (.ok ⟨bufStartAddr, 0, p.processId⟩, p)) ∨
    (p.isRunning ∧ size ≠ 0 ∧ p.inAppOwnedMemory bufStartAddr size ∧
      p.buildReadonlyProcessBuffer bufStartAddr size = (.ok ⟨bufStartAddr, size, p.processId⟩,
          p.raiseAllowHighWaterMark bufStartAddr size)) ∨ (p.isRunning ∧ size ≠ 0 ∧
      p.inAppOwnedMemory bufStartAddr size = false ∧ p.inAppFlashMemory bufStartAddr size ∧
      p.buildReadonlyProcessBuffer bufStartAddr size =
        (.ok ⟨bufStartAddr, size, p.processId⟩, p)) := by
  unfold buildReadonlyProcessBuffer
  cases hrun : p.isRunning with
  | false => exact .inl ⟨.fail, rfl⟩
  | true =>
    simp only [Bool.not_true, Bool.false_eq_true]
    by_cases hsize : size = 0
    · rw [if_pos hsize]
      exact .inr (.inl rfl)
    rw [if_neg hsize]
    cases howned : p.inAppOwnedMemory bufStartAddr size with
    | true => exact .inr (.inr (.inl ⟨trivial, hsize, rfl, rfl⟩))
    | false =>
      cases hflash : p.inAppFlashMemory bufStartAddr size with
      | true =>
        exact .inr (.inr (.inr ⟨trivial, hsize, rfl, rfl, rfl⟩))
      | false => exact .inl ⟨.inval, rfl⟩

theorem allocateCustomGrant_cases (contract : B.chip.mpu.Contract) (size align : Usize) :
    p.allocateCustomGrant size align = (.error (), p) ∨
    ∃ ptr p', p.isRunning ∧ p.allocateInGrantRegionInternal size align = (some ptr, p') ∧
      p.allocateCustomGrant size align = (.ok (p'.createCustomGrantIdentifier ptr, ptr), p') := by
  unfold allocateCustomGrant
  cases hrun : p.isRunning with
  | false => exact .inl rfl
  | true =>
    simp only [Bool.not_true, Bool.false_eq_true]
    rcases p.allocateInGrantRegionInternal_cases contract size align with
      hnone | ⟨-, _, -, -, -, -, hsome⟩
    · rw [hnone]
      exact .inl rfl
    · rw [hsome]
      exact .inr ⟨_, _, trivial, rfl, rfl⟩

theorem allocateGrant_cases (contract : B.chip.mpu.Contract)
    (htable : p.grantPointers.length = B.grantCount.toNat) (grantNum driverNum size align : Usize) :
    p.allocateGrant grantNum driverNum size align = (.error (), p) ∨
    ∃ ptr p', p.isRunning ∧ grantNum < B.grantCount ∧ p.grantIsAllocated grantNum ≠ some true ∧
      (∀ entry ∈ p.grantPointers, entry.grantPtr ≠ 0 → entry.driverNum ≠ driverNum) ∧
      p.allocateInGrantRegionInternal size align = (some ptr, p') ∧
      p.allocateGrant grantNum driverNum size align = (.ok (), { p' with
        grantPointers :=
          p'.grantPointers.set grantNum.toNat ⟨driverNum, ptr⟩ }) := by
  unfold allocateGrant
  cases hrun : p.isRunning with
  | false => exact .inl rfl
  | true =>
    simp only [Bool.not_true, Bool.false_eq_true]
    by_cases hcount : grantNum ≥ B.grantCount
    · rw [if_pos hcount]
      exact .inl rfl
    rw [if_neg hcount]
    by_cases hallocated : p.grantIsAllocated grantNum = some true
    · rw [if_pos hallocated]
      exact .inl rfl
    rw [if_neg hallocated]
    by_cases hexists : (p.grantPointers.any fun entry =>
        entry.grantPtr != 0 && entry.driverNum == driverNum)
    · rw [if_pos hexists]
      exact .inl rfl
    rw [if_neg hexists]
    have hfree : ∀ entry ∈ p.grantPointers, entry.grantPtr ≠ 0 → entry.driverNum ≠ driverNum := by
      simpa using hexists
    have hlt : grantNum < B.grantCount := BitVec.not_le.mp hcount
    rcases p.allocateInGrantRegionInternal_cases contract size align with
      hnone | ⟨-, _, -, -, -, -, hsome⟩
    · rw [hnone]
      exact .inl rfl
    rw [hsome]
    refine .inr ⟨_, _, trivial, hlt, hallocated, hfree, rfl, ?_⟩
    exact if_pos (htable ▸ BitVec.lt_def.mp hlt)

end ProcessStandard

end TockKernel

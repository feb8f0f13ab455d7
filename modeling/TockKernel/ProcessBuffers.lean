import TockKernel.KernelOwnedMemory

/-!
# Buffers a process shares with the kernel

A buffer is checked once, when it is shared. The high water mark keeps it
inside the memory of the process afterwards: `brk` never goes below it, and the
kernel never allocates below `app_break`.
-/

namespace TockKernel

open ProcessStandard Ledger MemoryResult
open MemoryOp (apply)

variable {B : Board}

/-- Size of the protected part of the flash of a process, computed without
wrapping around. -/
def TbfHeader.protectedBytes (header : TbfHeader) : ℕ :=
  match header.main with
  | some main => header.headerSize.toNat + main.protectedTrailerSize.toNat
  | none => 0

def ProcessStandard.ProtectedFlashFits (p : ProcessStandard B) : Prop :=
  p.flash.start.toNat + p.header.protectedBytes < 2 ^ 32

instance (p : ProcessStandard B) : Decidable p.ProtectedFlashFits :=
  inferInstanceAs (Decidable (_ < _))

namespace Tracked

/-- Shared buffers in RAM lie below the high water mark, and the others in the
flash of the process as the code computes it. -/
structure BufferInvariant (s : Tracked B) : Prop where
  ram : ∀ buffer, (BufferKind.ram, buffer) ∈ s.ledger.buffers →
    s.process.memoryStart.toNat ≤ buffer.ptr.toNat ∧ buffer.ptr.toNat + buffer.len.toNat ≤
        s.process.allowHighWaterMark.toNat
  flash : ∀ buffer, (BufferKind.flash, buffer) ∈ s.ledger.buffers →
    s.process.flashNonProtectedStart.toNat ≤ buffer.ptr.toNat ∧
      buffer.ptr.toNat + buffer.len.toNat ≤ s.process.flashEnd.toNat

variable {contract : B.chip.mpu.Contract} {s s' : Tracked B}

theorem flashNonProtectedStart_congr (h : s'.process.placement = s.process.placement) :
    s'.process.flashNonProtectedStart = s.process.flashNonProtectedStart := by
  have hflash : s'.process.flash = s.process.flash :=
    congrArg Placement.flash h
  have hheader : s'.process.header = s.process.header :=
    congrArg Placement.header h
  rw [flashNonProtectedStart, hflash, hheader, flashNonProtectedStart]

theorem flashEnd_congr (h : s'.process.placement = s.process.placement) :
    s'.process.flashEnd = s.process.flashEnd := by
  have hflash : s'.process.flash = s.process.flash :=
    congrArg Placement.flash h
  rw [flashEnd, hflash, flashEnd]

theorem BufferInvariant.of_empty (h : s.ledger.buffers = []) : s.BufferInvariant := by
  constructor <;> simp [h]

section

variable (h : s.BufferInvariant) (hplacement : s'.process.placement = s.process.placement)
include h hplacement

theorem BufferInvariant.of_same
    (hmark : s.process.allowHighWaterMark.toNat ≤ s'.process.allowHighWaterMark.toNat)
    (hbuffers : s'.ledger.buffers = s.ledger.buffers) : s'.BufferInvariant := by
  constructor
  · intro buffer hbuf
    rw [hbuffers] at hbuf
    rw [memoryStart_congr hplacement]
    exact ⟨(h.ram buffer hbuf).1, (h.ram buffer hbuf).2.trans hmark⟩
  · intro buffer hbuf
    rw [hbuffers] at hbuf
    rw [flashNonProtectedStart_congr hplacement, flashEnd_congr hplacement]
    exact h.flash buffer hbuf

theorem BufferInvariant.addRam (buffer : ProcessBuffer)
    (howned : s.process.inAppOwnedMemory buffer.ptr buffer.len)
    (hmark : s'.process.allowHighWaterMark =
      (s.process.raiseAllowHighWaterMark buffer.ptr buffer.len).allowHighWaterMark)
    (hbuffers : s'.ledger.buffers = (.ram, buffer) :: s.ledger.buffers) : s'.BufferInvariant := by
  obtain ⟨hlow, hhigh⟩ := inAppOwnedMemory_iff.mp howned
  have hend : (buffer.ptr + buffer.len).toNat = buffer.ptr.toNat + buffer.len.toNat := by
    rw [BitVec.toNat_add, Nat.mod_eq_of_lt (by omega)]
  have hmark' : s'.process.allowHighWaterMark.toNat = max s.process.allowHighWaterMark.toNat
        (buffer.ptr.toNat + buffer.len.toNat) := by
    rw [hmark, raiseAllowHighWaterMark, toNat_cmpMax, hend]
  constructor
  · intro other hother
    rw [memoryStart_congr hplacement, hmark']
    rw [hbuffers] at hother
    rcases List.mem_cons.mp hother with heq | hmem
    · cases heq
      exact ⟨hlow, le_max_right _ _⟩
    · exact ⟨(h.ram other hmem).1, (h.ram other hmem).2.trans (le_max_left _ _)⟩
  · intro other hother
    rw [flashNonProtectedStart_congr hplacement, flashEnd_congr hplacement]
    rw [hbuffers] at hother
    rcases List.mem_cons.mp hother with heq | hmem
    · cases heq
    · exact h.flash other hmem

end

theorem BufferInvariant.addFlash (h : s.BufferInvariant) (hprocess : s'.process = s.process)
    (buffer : ProcessBuffer) (hflash : s.process.inAppFlashMemory buffer.ptr buffer.len)
    (hbuffers : s'.ledger.buffers = (.flash, buffer) :: s.ledger.buffers) : s'.BufferInvariant := by
  constructor
  · intro other hother
    rw [hprocess]
    rw [hbuffers] at hother
    rcases List.mem_cons.mp hother with heq | hmem
    · cases heq
    · exact h.ram other hmem
  · intro other hother
    rw [hprocess]
    rw [hbuffers] at hother
    rcases List.mem_cons.mp hother with heq | hmem
    · cases heq
      exact inAppFlashMemory_iff.mp hflash
    · exact h.flash other hmem

/-! ## One operation -/

theorem BufferInvariant.buildReadwriteProcessBuffer
    (contract : B.chip.mpu.Contract) (h : s.BufferInvariant) (bufStartAddr size : Usize) :
    (s.step (.buildReadwriteProcessBuffer bufStartAddr size)).BufferInvariant := by
  have hplacement := s.step_placement contract (.buildReadwriteProcessBuffer bufStartAddr size)
  simp only [step, apply] at hplacement ⊢
  rcases s.process.buildReadwriteProcessBuffer_cases bufStartAddr size with
    ⟨_, herror⟩ | hempty | ⟨-, hsize, howned, hram⟩
  · rw [herror]
    exact h
  · rw [hempty]
    exact h
  rw [hram] at hplacement ⊢
  refine h.addRam hplacement ⟨bufStartAddr, size, s.process.processId⟩ howned rfl ?_
  simp only [record, ofBuffer, addBuffer, if_neg hsize]

theorem BufferInvariant.buildReadonlyProcessBuffer
    (contract : B.chip.mpu.Contract) (h : s.BufferInvariant) (bufStartAddr size : Usize) :
    (s.step (.buildReadonlyProcessBuffer bufStartAddr size)).BufferInvariant := by
  have hplacement := s.step_placement contract (.buildReadonlyProcessBuffer bufStartAddr size)
  simp only [step, apply] at hplacement ⊢
  rcases s.process.buildReadonlyProcessBuffer_cases bufStartAddr size with
    ⟨_, herror⟩ | hempty | ⟨-, hsize, howned, hram⟩ | ⟨-, hsize, howned, hinFlash, hflash⟩
  · rw [herror]
    exact h
  · rw [hempty]
    exact h
  · rw [hram] at hplacement ⊢
    refine h.addRam hplacement ⟨bufStartAddr, size, s.process.processId⟩ howned rfl ?_
    simp only [record, ofBuffer, addBuffer, kindOf, if_neg hsize, howned, if_true]
  rw [hflash]
  refine h.addFlash rfl ⟨bufStartAddr, size, s.process.processId⟩ hinFlash ?_
  simp only [record, ofBuffer, addBuffer,
    kindOf, if_neg hsize, howned, Bool.false_eq_true, if_false]

theorem allocateInGrantRegionInternal_highWaterMark
    (contract : B.chip.mpu.Contract) (p : ProcessStandard B) (size align : Usize) :
    (p.allocateInGrantRegionInternal size align).2.allowHighWaterMark = p.allowHighWaterMark := by
  obtain ⟨_, _, hframe⟩ := p.allocateInGrantRegionInternal_frame contract size align
  rw [hframe]

theorem BufferInvariant.step (contract : B.chip.mpu.Contract)
    (htable : s.process.memoryView.Placed) (h : s.BufferInvariant) (op : MemoryOp) :
    (s.step op).BufferInvariant := by
  have hplacement := s.step_placement contract op
  cases op with
  | brk newBreak =>
    refine h.of_same hplacement ?_ rfl
    simp only [Tracked.step, apply]
    rcases s.process.brk_cases contract newBreak with
      ⟨error, herror⟩ | ⟨config, config', -, -, -, -, -, -, hok⟩
    · rw [herror]
    · rw [hok]
  | sbrk increment =>
    refine h.of_same hplacement ?_ rfl
    simp only [Tracked.step, apply, sbrk_eq_brk]
    rcases s.process.brk_cases contract (s.process.appBreak + increment) with
      ⟨error, herror⟩ | ⟨config, config', -, -, -, -, -, -, hok⟩
    · rw [herror]
    · rw [hok]
  | buildReadwriteProcessBuffer bufStartAddr size =>
    exact h.buildReadwriteProcessBuffer contract bufStartAddr size
  | buildReadonlyProcessBuffer bufStartAddr size =>
    exact h.buildReadonlyProcessBuffer contract bufStartAddr size
  | allocateGrant grantNum driverNum size align =>
    have hmark := allocateInGrantRegionInternal_highWaterMark contract s.process size align
    simp only [Tracked.step, apply] at hplacement ⊢
    rcases s.process.allocateGrant_cases contract
      htable.grantPointers_length grantNum driverNum size align with
      herror | ⟨ptr, p', -, -, -, -, halloc, hok⟩
    · rw [herror]
      exact h
    rw [halloc] at hmark
    rw [hok] at hplacement ⊢
    refine h.of_same hplacement (congrArg BitVec.toNat hmark).ge ?_
    simp only [record, ofGrant]
    split <;> rfl
  | allocateCustomGrant size align =>
    have hmark := allocateInGrantRegionInternal_highWaterMark contract s.process size align
    simp only [Tracked.step, apply] at hplacement ⊢
    rcases s.process.allocateCustomGrant_cases contract size align with
      herror | ⟨ptr, p', -, halloc, hok⟩
    · rw [herror]
      exact h
    rw [halloc] at hmark
    rw [hok] at hplacement ⊢
    exact h.of_same hplacement (congrArg BitVec.toNat hmark).ge rfl
  | terminate completionCode =>
    refine h.of_same hplacement ?_ rfl
    simp only [Tracked.step, apply]
    rcases s.process.terminate_cases completionCode with
      ⟨-, -, hsame⟩ | ⟨-, hterm⟩
    · rw [hsame]
    · rw [hterm]
      rfl
  | tryRestart completionCode =>
    simp only [Tracked.step, apply, tryRestart, record]
    by_cases hterm : s.process.state = .terminated
    · simp only [hterm]
      exact h
    · simp only [hterm]
      exact .of_empty rfl
  | start =>
    simp only [Tracked.step, apply, start, record]
    by_cases hterm : s.process.state = .terminated
    · simp only [hterm]
      exact .of_empty rfl
    · simp only [hterm, ne_eq]
      exact h

/-! ## Runs -/

theorem run_bufferInvariant (ops : List MemoryOp) (hlayout : s.process.LayoutInvariant contract)
    (h : s.BufferInvariant) : (s.run ops).BufferInvariant := by
  induction ops generalizing s with
  | nil => exact h
  | cons op ops ih =>
    exact ih (MemoryOp.apply_layoutInvariant hlayout op s.kernel)
      (h.step contract hlayout.placed op)

theorem run_placement (contract : B.chip.mpu.Contract) (s : Tracked B) (ops : List MemoryOp) :
    (s.run ops).process.placement = s.process.placement := by
  induction ops generalizing s with
  | nil => rfl
  | cons op ops ih => exact (ih (s.step op)).trans (s.step_placement contract op)

end Tracked

namespace ProcessStandard

variable {p : ProcessStandard B}

theorem toNat_flashNonProtectedStart (h : p.ProtectedFlashFits) : p.flashNonProtectedStart.toNat =
      p.flash.start.toNat + p.header.protectedBytes := by
  have hsize : p.header.getProtectedSize.toNat = p.header.protectedBytes := by
    unfold ProtectedFlashFits TbfHeader.protectedBytes at h
    unfold TbfHeader.getProtectedSize TbfHeader.protectedBytes
    cases hmain : p.header.main with
    | none => rfl
    | some main =>
      rw [hmain] at h
      simp only at h ⊢
      rw [BitVec.toNat_add, BitVec.toNat_setWidth_of_le (by decide), Nat.mod_eq_of_lt (by omega)]
  rw [flashNonProtectedStart, BitVec.toNat_add, hsize, Nat.mod_eq_of_lt h]

theorem toNat_flashEnd (p : ProcessStandard B) :
    p.flashEnd.toNat = p.flash.start.toNat + p.flash.len.toNat := by
  rw [flashEnd, BitVec.toNat_add, Nat.mod_eq_of_lt p.flash.noWrap]

end ProcessStandard

/-- In every run that keeps kernel-owned memory apart, of a process whose
protected flash ends at an address, shared buffers in RAM lie below `app_break`
and overlap nothing of the kernel's, the others lie in the unprotected part of
its flash. -/
theorem shared_buffers_process_owned (contract : B.chip.mpu.Contract) (arguments : CreateArguments)
    (kernel : Kernel) {p0 : ProcessStandard B} {unused : MemorySlice} {kernel0 : Kernel}
    (hcreate : ProcessStandard.create arguments kernel = .ok (.ok (p0, unused), kernel0))
    (hflash : p0.ProtectedFlashFits) (ops : List MemoryOp)
    (haligned : ∀ op ∈ ops, op.PowerOfTwoAligned)
    (hkeeps : ∀ op ∈ ops, op.KeepsApart (p0.memoryStart.toNat + p0.memoryLen.toNat)) :
    let s := (Tracked.created p0 kernel0).run ops
    let p := s.process
    (∀ buffer, (BufferKind.ram, buffer) ∈ s.ledger.buffers →
      p.memoryStart.toNat ≤ buffer.ptr.toNat ∧
      buffer.ptr.toNat + buffer.len.toNat ≤ p.appBreak.toNat ∧ ∀ r ∈ s.ownedRanges,
        Word.Range.Disjoint ⟨buffer.ptr, buffer.len⟩ r) ∧
    (∀ buffer, (BufferKind.flash, buffer) ∈ s.ledger.buffers →
      p.flash.start.toNat + p.header.protectedBytes ≤ buffer.ptr.toNat ∧
      buffer.ptr.toNat + buffer.len.toNat ≤ p.flash.start.toNat + p.flash.len.toNat) := by
  intro s p
  have hcreated := Tracked.ownedInvariant_created contract hcreate
  have howned : s.OwnedInvariant contract := hcreated.run ops haligned hkeeps
  have hbuffers : s.BufferInvariant :=
    Tracked.run_bufferInvariant ops hcreated.layout (.of_empty rfl)
  have hplacement : p.placement = p0.placement :=
    (Tracked.created p0 kernel0).run_placement contract ops
  constructor
  · intro buffer hbuf
    obtain ⟨hlow, hmark⟩ := hbuffers.ram buffer hbuf
    have happ := hmark.trans howned.layout.ordered.highWaterMark_le_appBreak
    refine ⟨hlow, happ, ?_⟩
    intro r hr
    obtain ⟨hbreak, hend⟩ := howned.stacked.bounded r hr
    exact Word.Range.disjoint_of_le
      (happ.trans (howned.layout.ordered.appBreak_le_kernelBreak.trans hbreak))
      (hend.trans howned.layout.placed.noWrap.le)
  · intro buffer hbuf
    have hfits : p.ProtectedFlashFits := by
      unfold ProtectedFlashFits
      rw [show p.flash = p0.flash from congrArg Placement.flash hplacement,
        show p.header = p0.header from congrArg Placement.header hplacement]
      exact hflash
    have hin := hbuffers.flash buffer hbuf
    rwa [toNat_flashNonProtectedStart hfits, toNat_flashEnd] at hin

theorem shared_buffers_process_owned_small :
    ∃ (p0 : ProcessStandard smallBoard) (unused : MemorySlice) (kernel0 : Kernel),
      ProcessStandard.create (smallArguments 1024) ⟨0⟩ = .ok (.ok (p0, unused), kernel0) ∧
      let s := (Tracked.created p0 kernel0).run
        [.tryRestart none, .allocateGrant 1 7 64 4, .brk 0x20000100,
          .buildReadwriteProcessBuffer 0x20000080 0x80,
          .allocateCustomGrant 16 4]
      ∃ buffer, (BufferKind.ram, buffer) ∈ s.ledger.buffers ∧ ∀ r ∈ s.ownedRanges,
          Word.Range.Disjoint ⟨buffer.ptr, buffer.len⟩ r := by
  refine ⟨_, _, _, rfl, ⟨0x20000080, 0x80, ⟨0, 1⟩⟩, ?_, ?_⟩
  · decide
  · refine ((shared_buffers_process_owned unalignedMpuContract
      (smallArguments 1024) ⟨0⟩ rfl ?_ _ ?_ ?_).1 _ ?_).2.2
    · decide
    · simp only [List.forall_mem_cons]
      exact ⟨trivial, ⟨2, rfl⟩, trivial, trivial, ⟨2, rfl⟩, by simp⟩
    · decide
    · decide

/-- A process whose header declares more protected flash than there are
addresses above its binary. -/
def overlongArguments : CreateArguments :=
  { smallArguments 1024 with
    pb := {
      header := ⟨64, some ⟨0, 0xFFFF0000, 1024⟩, none, []⟩
      flash := (smallArguments 1024).pb.flash } }

/-- A process restarted in a block that does not end at a word boundary can
share the first byte of its own process record, and one whose protected flash
wraps around can share bytes below its flash. -/
theorem shared_buffers_outside_process : (∃ (p0 : ProcessStandard smallBoard) (unused : MemorySlice)
      (kernel0 : Kernel), ProcessStandard.create (smallArguments 1025) ⟨0⟩ =
        .ok (.ok (p0, unused), kernel0) ∧
      let s := (Tracked.created p0 kernel0).run [.tryRestart none, .brk 0x20000405,
          .buildReadwriteProcessBuffer 0x20000404 1]
      ∃ buffer, (BufferKind.ram, buffer) ∈ s.ledger.buffers ∧ ∃ r ∈ s.ownedRanges,
          ¬ Word.Range.Disjoint ⟨buffer.ptr, buffer.len⟩ r) ∧
    (∃ (p0 : ProcessStandard smallBoard) (unused : MemorySlice) (kernel0 : Kernel),
      ProcessStandard.create overlongArguments ⟨0⟩ = .ok (.ok (p0, unused), kernel0) ∧
      let s := (Tracked.created p0 kernel0).run [.buildReadonlyProcessBuffer 0x40 16]
      ∃ buffer, (BufferKind.flash, buffer) ∈ s.ledger.buffers ∧
        buffer.ptr.toNat < s.process.flash.start.toNat) := by
  constructor
  · refine ⟨_, _, _, rfl, ⟨0x20000404, 1, ⟨0, 1⟩⟩, ?_, ⟨0x20000404, 400⟩, ?_, ?_⟩
    · decide
    · decide
    · intro hdisjoint
      exact hdisjoint 0x20000404 (by decide) (by decide)
  · refine ⟨_, _, _, rfl, ⟨0x40, 16, ⟨0, 0⟩⟩, ?_, ?_⟩
    · decide
    · decide

end TockKernel

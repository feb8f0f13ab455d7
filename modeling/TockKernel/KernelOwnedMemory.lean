import TockKernel.ProcessLayout

/-!
# Memory the kernel owns inside a process

The top of the memory of a process holds the kernel's own objects and below them
the grants allocated since the process was last started. A ledger, which no
operation reads, records what was handed out. As long as `kernel_memory_break`
lies below everything already in use, new grants overlap nothing. Two
computations do not keep this up: `reset` does not leave room for the padding
that `create` inserts above the grant pointer table, and the check against
wrapping around in `allocate_in_grant_region_internal` accepts sizes close to
the size of the address space.
-/

namespace TockKernel

open ProcessStandard MemoryOp List

variable {B : Board}

/-! ## The ledger -/

structure GrantAllocation where
  address : Usize
  size : Usize
  align : Usize
  identifier : Option CustomGrantIdentifier

inductive BufferKind where
  | ram
  | flash
  deriving DecidableEq

/-- What a process was given since it was last started: its grants, and the
non-empty buffers it shared, newest first. -/
structure Ledger where
  grants : List GrantAllocation
  buffers : List (BufferKind × ProcessBuffer)

namespace Ledger

def empty : Ledger where
  grants := []
  buffers := []

def addGrant (ledger : Ledger) (grant : GrantAllocation) : Ledger :=
  { ledger with grants := grant :: ledger.grants }

def addBuffer (ledger : Ledger) (kind : BufferKind) (buffer : ProcessBuffer) : Ledger :=
  if buffer.len = 0 then ledger
  else { ledger with buffers := (kind, buffer) :: ledger.buffers }

/-- Where a buffer lies, by the check that `build_readonly_process_buffer`
makes first. -/
def kindOf (p : ProcessStandard B) (buffer : ProcessBuffer) : BufferKind :=
  if p.inAppOwnedMemory buffer.ptr buffer.len then .ram else .flash

/-- The ledger after an operation took a process from `p` to `p'`. -/
def record (ledger : Ledger) (p p' : ProcessStandard B) (op : MemoryOp)
    (result : MemoryResult) : Ledger :=
  match op, result with
  | .buildReadwriteProcessBuffer _ _, .buffer accepted =>
    ledger.addBuffer .ram accepted
  | .buildReadonlyProcessBuffer _ _, .buffer accepted =>
    ledger.addBuffer (kindOf p accepted) accepted
  | .allocateGrant grantNum _ size align, .returned =>
    match p'.grantPointers[grantNum.toNat]? with
    | some entry => ledger.addGrant ⟨entry.grantPtr, size, align, none⟩
    | none => ledger
  | .allocateCustomGrant size align, .customGrant identifier ptr =>
    ledger.addGrant ⟨ptr, size, align, some identifier⟩
  | .tryRestart _, _ => if p.state = .terminated then ledger else empty
  | .start, _ => if p.state = .terminated then empty else ledger
  | _, _ => ledger

end Ledger

structure Tracked (B : Board) where
  process : ProcessStandard B
  kernel : Kernel
  ledger : Ledger

namespace Tracked

def step (s : Tracked B) (op : MemoryOp) : Tracked B :=
  let r := op.apply s.process s.kernel
  { process := r.2.1
    kernel := r.2.2
    ledger := s.ledger.record s.process r.2.1 op r.1 }

def run (s : Tracked B) (ops : List MemoryOp) : Tracked B :=
  ops.foldl step s

end Tracked

/-! ## The objects -/

def GrantAllocation.range (grant : GrantAllocation) : Word.Range 32 :=
  ⟨grant.address, grant.size⟩

/-- The process control block, the upcall queue and the grant pointer table. -/
def ProcessStandard.kernelObjects (p : ProcessStandard B) : List (Word.Range 32) :=
  [⟨p.processStructAddress, B.processStructOffset⟩, ⟨p.upcallBufAddress, B.callbacksOffset⟩,
    ⟨p.grantPointersAddress, B.grantPtrsOffset⟩]

def Tracked.ownedRanges (s : Tracked B) : List (Word.Range 32) :=
  s.ledger.grants.map GrantAllocation.range ++ s.process.kernelObjects

def MemoryOp.PowerOfTwoAligned : MemoryOp → Prop
  | .allocateGrant _ _ _ align => ∃ k, align.toNat = 2 ^ k
  | .allocateCustomGrant _ align => ∃ k, align.toNat = 2 ^ k
  | _ => True

/-- A grant with its alignment fits into the address space, and only a process
whose block ends at a word boundary is restarted. -/
def MemoryOp.KeepsApart (blockEnd : ℕ) : MemoryOp → Prop
  | .allocateGrant _ _ size align =>
    size.toNat + max align.toNat 2 ≤ 2 ^ 32
  | .allocateCustomGrant size align =>
    size.toNat + max align.toNat 2 ≤ 2 ^ 32
  | .tryRestart _ => 4 ∣ blockEnd
  | .start => 4 ∣ blockEnd
  | _ => True

instance (blockEnd : ℕ) (op : MemoryOp) : Decidable (op.KeepsApart blockEnd) :=
  match op with
  | .allocateGrant _ _ size align =>
    inferInstanceAs (Decidable (size.toNat + max align.toNat 2 ≤ 2 ^ 32))
  | .allocateCustomGrant size align =>
    inferInstanceAs (Decidable (size.toNat + max align.toNat 2 ≤ 2 ^ 32))
  | .tryRestart _ => inferInstanceAs (Decidable (4 ∣ blockEnd))
  | .start => inferInstanceAs (Decidable (4 ∣ blockEnd))
  | .brk _ | .sbrk _ | .buildReadwriteProcessBuffer _ _
  | .buildReadonlyProcessBuffer _ _ | .terminate _ => .isTrue trivial

/-! ## What never changes -/

structure Placement where
  memoryStart : Usize
  memoryLen : Usize
  flash : Slice
  header : TbfHeader
  grantPointersAddress : Usize
  upcallBufAddress : Usize
  processStructAddress : Usize

def MemoryView.placement (v : MemoryView B) : Placement where
  memoryStart := v.memoryStart
  memoryLen := v.memoryLen
  flash := v.flash
  header := v.header
  grantPointersAddress := v.grantPointersAddress
  upcallBufAddress := v.upcallBufAddress
  processStructAddress := v.processStructAddress

namespace ProcessStandard

variable (p : ProcessStandard B)

def placement (p : ProcessStandard B) : Placement :=
  p.memoryView.placement

theorem terminate_placement (completionCode : Option (BitVec 32)) :
    (p.terminate completionCode).placement = p.placement := by
  unfold terminate
  split <;> rfl

theorem resetAs_placement (identifier : Usize) :
    (p.resetAs identifier).2.placement = p.placement := by
  unfold resetAs
  simp only
  split
  · rfl
  split
  · rfl
  · rw [placement, initializeAgain_memoryView]
    rfl

theorem resetToYielded_placement (kernel : Kernel) :
    (p.resetToYielded kernel).1.placement = p.placement := by
  unfold resetToYielded reset Kernel.createProcessIdentifier
  simp only
  rcases hreset : p.resetAs kernel.processIdentifierMax with ⟨result, _⟩
  have hplacement := p.resetAs_placement kernel.processIdentifierMax
  rw [hreset] at hplacement
  cases result with
  | ok _ | error error => exact hplacement

end ProcessStandard

theorem MemoryOp.apply_placement (contract : B.chip.mpu.Contract) (op : MemoryOp)
    (p : ProcessStandard B) (kernel : Kernel) :
    (op.apply p kernel).2.1.placement = p.placement := by
  have hbrk : ∀ newBreak, (p.brk newBreak).2.placement = p.placement := by
    intro newBreak
    rcases p.brk_cases contract newBreak with
      ⟨error, herror⟩ | ⟨-, _, -, -, -, -, -, -, hok⟩
    · rw [herror]
    · rw [hok]
      rfl
  have halloc : ∀ size align, (p.allocateInGrantRegionInternal size align).2.placement =
        p.placement := by
    intro size align
    obtain ⟨_, _, hframe⟩ := p.allocateInGrantRegionInternal_frame contract size align
    rw [hframe]
    rfl
  cases op with
  | brk newBreak => exact hbrk newBreak
  | sbrk increment =>
    simp only [apply, ProcessStandard.sbrk_eq_brk]
    exact hbrk _
  | buildReadwriteProcessBuffer bufStartAddr size =>
    simp only [apply]
    rcases p.buildReadwriteProcessBuffer_cases bufStartAddr size with
      ⟨error, herror⟩ | hempty | ⟨-, -, -, hram⟩
    · rw [herror]
    · rw [hempty]
    · rw [hram]
      rfl
  | buildReadonlyProcessBuffer bufStartAddr size =>
    simp only [apply]
    rcases p.buildReadonlyProcessBuffer_cases bufStartAddr size with
      ⟨error, herror⟩ | hempty | ⟨-, -, -, hram⟩ | ⟨-, -, -, -, hflash⟩
    · rw [herror]
    · rw [hempty]
    · rw [hram]
      rfl
    · rw [hflash]
  | allocateGrant grantNum driverNum size align =>
    have hplacement := halloc size align
    simp only [apply, ProcessStandard.allocateGrant]
    split_ifs <;> try rfl
    split
    · rename_i hnone
      rw [hnone] at hplacement
      exact hplacement
    rename_i hsome
    rw [hsome] at hplacement
    split <;> exact hplacement
  | allocateCustomGrant size align =>
    have hplacement := halloc size align
    simp only [apply, ProcessStandard.allocateCustomGrant]
    split_ifs
    · rfl
    split
    · rename_i hsome
      rw [hsome] at hplacement
      exact hplacement
    rename_i hnone
    rw [hnone] at hplacement
    exact hplacement
  | terminate completionCode => exact p.terminate_placement completionCode
  | tryRestart completionCode =>
    simp only [apply, ProcessStandard.tryRestart]
    split_ifs
    · rfl
    · rw [ProcessStandard.resetToYielded_placement, ProcessStandard.terminate_placement]
  | start =>
    simp only [apply, ProcessStandard.start]
    split_ifs
    · rfl
    · rw [ProcessStandard.resetToYielded_placement]

theorem ProcessStandard.nextGrantAddress_spec {p : ProcessStandard B} {size align : Usize} {k : ℕ}
    (halign : align.toNat = 2 ^ k) (hfits : size.toNat + max align.toNat 2 ≤ 2 ^ 32)
    (hwrap : p.nextGrantAddress size align ≤ p.kernelMemoryBreak) :
    (p.nextGrantAddress size align).toNat + size.toNat ≤ p.kernelMemoryBreak.toNat ∧
      align.toNat ∣ (p.nextGrantAddress size align).toNat := by
  have hmax : (cmpMax align 2).toNat = 2 ^ max k 1 := by
    rw [toNat_cmpMax, halign]
    exact ((pow_right_mono₀ (show 1 ≤ 2 by decide)).map_max (b := 1)).symm
  have hdvd : align.toNat ∣ (cmpMax align 2).toNat := by
    rw [hmax, halign]
    exact Nat.pow_dvd_pow 2 (le_max_left k 1)
  have haddr : (p.nextGrantAddress size align).toNat = (p.kernelMemoryBreak - size).toNat -
        (p.kernelMemoryBreak - size).toNat % (cmpMax align 2).toNat :=
    Word.toNat_and_not_pred _ _ hmax
  constructor
  · have hmod := Nat.mod_lt (p.kernelMemoryBreak - size).toNat
      (show 0 < (cmpMax align 2).toNat by rw [hmax]; positivity)
    have hmaxEq : (cmpMax align 2).toNat = max align.toNat 2 := toNat_cmpMax align 2
    bv_omega
  · rw [haddr]
    exact hdvd.trans (Nat.dvd_sub_mod _)

/-! ## The invariant -/

/-- The kernel's objects fill the space below the last word boundary of the
block. -/
structure Placement.ObjectsPlaced (q : Placement) (B : Board) : Prop where
  table : q.grantPointersAddress.toNat + B.grantCount.toNat * 8 =
    q.memoryStart.toNat + q.memoryLen.toNat - (q.memoryStart.toNat + q.memoryLen.toNat) % 4
  queue : q.upcallBufAddress.toNat + B.chip.sizeOfTask.toNat * 10 = q.grantPointersAddress.toNat
  record : q.processStructAddress.toNat +
    B.chip.sizeOfProcessStandard.toNat = q.upcallBufAddress.toNat

/-- Kernel-owned memory is stacked above the kernel memory break, and custom
grants are found again at their identifiers. -/
structure Tracked.OwnedInvariant (contract : B.chip.mpu.Contract) (s : Tracked B) : Prop where
  layout : s.process.LayoutInvariant contract
  objects : s.process.placement.ObjectsPlaced B
  stacked : Word.Stacked s.process.kernelMemoryBreak.toNat
    (s.process.memoryStart.toNat + s.process.memoryLen.toNat) s.ownedRanges
  aligned : ∀ grant ∈ s.ledger.grants, grant.align.toNat ∣ grant.address.toNat
  recovered : ∀ grant ∈ s.ledger.grants, ∀ identifier, grant.identifier = some identifier →
      s.process.getCustomGrantAddress identifier = grant.address

namespace ProcessStandard

variable {p p' : ProcessStandard B}

section

variable (h : p'.placement = p.placement)
include h

theorem kernelObjects_congr : p'.kernelObjects = p.kernelObjects := by
  simp only [placement, memoryView, MemoryView.placement, Placement.mk.injEq] at h
  simp [kernelObjects, h]

theorem memoryStart_congr : p'.memoryStart = p.memoryStart :=
  congrArg Placement.memoryStart h

theorem memoryLen_congr : p'.memoryLen = p.memoryLen :=
  congrArg Placement.memoryLen h

theorem getCustomGrantAddress_congr (identifier : CustomGrantIdentifier) :
    p'.getCustomGrantAddress identifier = p.getCustomGrantAddress identifier := by
  simp only [getCustomGrantAddress, memEnd, memoryStart_congr h, memoryLen_congr h]

end

theorem getCustomGrantAddress_create (p : ProcessStandard B) (ptr : Usize) :
    p.getCustomGrantAddress (p.createCustomGrantIdentifier ptr) = ptr := by
  simp only [getCustomGrantAddress, createCustomGrantIdentifier]
  bv_omega

theorem stacked_kernelObjects (hobjects : p.placement.ObjectsPlaced B) {low : ℕ}
    (hlow : low ≤ p.processStructAddress.toNat) :
    Word.Stacked low (p.memoryStart.toNat + p.memoryLen.toNat) p.kernelObjects := by
  obtain ⟨htable, hqueue, hrecord⟩ := hobjects
  change p.grantPointersAddress.toNat + _ = p.memoryStart.toNat + p.memoryLen.toNat -
      (p.memoryStart.toNat + p.memoryLen.toNat) % 4 at htable
  change p.upcallBufAddress.toNat + _ = p.grantPointersAddress.toNat at hqueue
  change p.processStructAddress.toNat + _ = p.upcallBufAddress.toNat at hrecord
  have htableSize := B.toNat_grantPtrsOffset
  have hqueueSize := B.toNat_callbacksOffset
  have hrecordSize : B.processStructOffset.toNat = B.chip.sizeOfProcessStandard.toNat := rfl
  constructor
  · simp only [kernelObjects, pairwise_cons, mem_cons, Word.Range.stop, not_mem_nil,
      forall_eq_or_imp, false_implies, implies_true, Pairwise.nil, and_true]
    omega
  · simp only [kernelObjects, mem_cons, not_mem_nil, or_false,
      forall_eq_or_imp, forall_eq, Word.Range.stop]
    omega

end ProcessStandard

namespace Tracked

variable {contract : B.chip.mpu.Contract} {s s' : Tracked B}

theorem OwnedInvariant.break_le_record (h : s.OwnedInvariant contract) :
    s.process.kernelMemoryBreak.toNat ≤ s.process.processStructAddress.toNat :=
  (h.stacked.bounded ⟨s.process.processStructAddress, B.processStructOffset⟩
    (by simp [ownedRanges, kernelObjects])).1

section

variable (h : s.OwnedInvariant contract) (hlayout : s'.process.LayoutInvariant contract)
  (hplacement : s'.process.placement = s.process.placement)
include h hlayout hplacement

theorem OwnedInvariant.of_same (hbreak : s'.process.kernelMemoryBreak = s.process.kernelMemoryBreak)
    (hgrants : s'.ledger.grants = s.ledger.grants) : s'.OwnedInvariant contract where
  layout := hlayout
  objects := hplacement ▸ h.objects
  stacked := by
    rw [ownedRanges, kernelObjects_congr hplacement, memoryStart_congr hplacement,
      memoryLen_congr hplacement, hbreak, hgrants]
    exact h.stacked
  aligned := by
    rw [hgrants]
    exact h.aligned
  recovered := by
    intro grant hgrant identifier hidentifier
    rw [hgrants] at hgrant
    rw [getCustomGrantAddress_congr hplacement]
    exact h.recovered grant hgrant identifier hidentifier

theorem OwnedInvariant.push {grant : GrantAllocation}
    (hgrants : s'.ledger.grants = grant :: s.ledger.grants)
    (hbreak : s'.process.kernelMemoryBreak = grant.address)
    (hfits : grant.address.toNat + grant.size.toNat ≤ s.process.kernelMemoryBreak.toNat)
    (haligned : grant.align.toNat ∣ grant.address.toNat)
    (hrecovered : ∀ identifier, grant.identifier = some identifier →
      s'.process.getCustomGrantAddress identifier = grant.address) :
    s'.OwnedInvariant contract where
  layout := hlayout
  objects := hplacement ▸ h.objects
  stacked := by
    rw [ownedRanges, kernelObjects_congr hplacement, memoryStart_congr hplacement,
      memoryLen_congr hplacement, hbreak, hgrants]
    exact h.stacked.push ((Nat.le_add_right _ _).trans hfits) le_rfl hfits
      h.layout.ordered.kernelBreak_le_end
  aligned := by
    rw [hgrants]
    intro other hother
    rcases mem_cons.mp hother with rfl | hmem
    · exact haligned
    · exact h.aligned other hmem
  recovered := by
    rw [hgrants]
    intro other hother identifier hidentifier
    rcases mem_cons.mp hother with rfl | hmem
    · exact hrecovered identifier hidentifier
    · rw [getCustomGrantAddress_congr hplacement]
      exact h.recovered other hmem identifier hidentifier

theorem OwnedInvariant.restarted (hgrants : s'.ledger.grants = [])
    (hword : 4 ∣ s.process.memoryStart.toNat + s.process.memoryLen.toNat)
    (hbreak : s'.process.kernelMemoryBreak = s.process.kernelMemoryBreak ∨
      s'.process.kernelMemoryBreak.toNat = s.process.memoryStart.toNat +
      s.process.memoryLen.toNat - B.kernelObjectsSize) : s'.OwnedInvariant contract where
  layout := hlayout
  objects := hplacement ▸ h.objects
  stacked := by
    rw [ownedRanges, hgrants, kernelObjects_congr hplacement, memoryStart_congr hplacement,
      memoryLen_congr hplacement]
    refine stacked_kernelObjects h.objects ?_
    rcases hbreak with hsame | hreset
    · rw [hsame]
      exact h.break_le_record
    obtain ⟨htable, hqueue, hrecord⟩ := h.objects
    change s.process.grantPointersAddress.toNat + _ =
      s.process.memoryStart.toNat + s.process.memoryLen.toNat -
        (s.process.memoryStart.toNat + s.process.memoryLen.toNat) % 4
        at htable
    change s.process.upcallBufAddress.toNat + _ = s.process.grantPointersAddress.toNat at hqueue
    change s.process.processStructAddress.toNat + _ = s.process.upcallBufAddress.toNat at hrecord
    rw [hreset]
    unfold Board.kernelObjectsSize
    omega
  aligned := by simp [hgrants]
  recovered := by simp [hgrants]

end

end Tracked

/-! ## One operation -/

namespace ProcessStandard

variable {p : ProcessStandard B}

theorem brk_kernelMemoryBreak (contract : B.chip.mpu.Contract) (p : ProcessStandard B)
    (newBreak : Usize) : (p.brk newBreak).2.kernelMemoryBreak = p.kernelMemoryBreak := by
  rcases p.brk_cases contract newBreak with
    ⟨_, herror⟩ | ⟨-, _, -, -, -, -, -, -, hok⟩
  · rw [herror]
  · rw [hok]

theorem terminate_kernelMemoryBreak (p : ProcessStandard B) (completionCode : Option (BitVec 32)) :
    (p.terminate completionCode).kernelMemoryBreak = p.kernelMemoryBreak := by
  rcases p.terminate_cases completionCode with
    ⟨-, -, hsame⟩ | ⟨-, hterm⟩
  · rw [hsame]
  · rw [hterm]
    rfl

theorem resetToYielded_kernelMemoryBreak
    (contract : B.chip.mpu.Contract) (hplaced : p.memoryView.Placed) (kernel : Kernel) :
    (p.resetToYielded kernel).1.kernelMemoryBreak = p.kernelMemoryBreak ∨
      (p.resetToYielded kernel).1.kernelMemoryBreak.toNat =
        p.memoryStart.toNat + p.memoryLen.toNat - B.kernelObjectsSize := by
  have hreset : ∀ identifier, (p.resetAs identifier).2.kernelMemoryBreak = p.kernelMemoryBreak ∨
        (p.resetAs identifier).2.kernelMemoryBreak.toNat =
          p.memoryStart.toNat + p.memoryLen.toNat - B.kernelObjectsSize := by
    intro identifier
    unfold resetAs
    simp only
    cases hcfg : (p.newIncarnation identifier).mpuConfig with
    | none => exact .inl rfl
    | some config =>
      simp only
      cases hreallocate : (p.newIncarnation identifier).reallocate config with
      | error error => exact .inl rfl
      | ok block =>
        obtain ⟨start, len, config'⟩ := block
        have hview := congrArg MemoryView.kernelMemoryBreak
          (((p.newIncarnation identifier).relayOut start len
            config').initializeAgain_memoryView start)
        refine .inr ((congrArg BitVec.toNat hview).trans ?_)
        exact toNat_relayOut_kernelMemoryBreak contract hplaced hreallocate
  unfold resetToYielded reset Kernel.createProcessIdentifier
  simp only
  have hcases := hreset kernel.processIdentifierMax
  rcases hres : p.resetAs kernel.processIdentifierMax with ⟨result, _⟩
  rw [hres] at hcases
  cases result with
  | ok _ => exact hcases
  | error error => exact hcases

end ProcessStandard

namespace Tracked

variable {contract : B.chip.mpu.Contract} {s : Tracked B}

section

variable (h : s.OwnedInvariant contract)
include h

section

variable {size align : Usize} {k : ℕ} (halign : align.toNat = 2 ^ k)
  (hfits : size.toNat + max align.toNat 2 ≤ 2 ^ 32)
include halign hfits

theorem OwnedInvariant.allocateGrant {grantNum driverNum : Usize} :
    (s.step (.allocateGrant grantNum driverNum size align)).OwnedInvariant contract := by
  have hlayout := apply_layoutInvariant h.layout
    (.allocateGrant grantNum driverNum size align) s.kernel
  have hplacement := apply_placement contract
    (.allocateGrant grantNum driverNum size align) s.process s.kernel
  have htable := h.layout.placed.grantPointers_length
  simp only [step, apply] at hlayout hplacement ⊢
  rcases s.process.allocateGrant_cases contract htable grantNum driverNum size
    align with herror | ⟨_, _, -, hlt, -, -, halloc, hok⟩
  · rw [herror]
    exact h
  rw [hok] at hlayout hplacement ⊢
  rcases s.process.allocateInGrantRegionInternal_cases contract size align
    with hnone | ⟨-, _, -, -, hwrap, -, hsome⟩
  · rw [hnone] at halloc
    cases halloc
  rw [hsome] at halloc
  cases halloc
  obtain ⟨hbelow, hdvd⟩ :=
    nextGrantAddress_spec halign hfits hwrap
  have hentry : (s.process.grantPointers.set grantNum.toNat
      ⟨driverNum, s.process.nextGrantAddress size align⟩)[grantNum.toNat]? =
      some ⟨driverNum, s.process.nextGrantAddress size align⟩ := by
    rw [getElem?_set_self]
    exact htable ▸ BitVec.lt_def.mp hlt
  refine h.push hlayout hplacement
    (show _ = GrantAllocation.mk (s.process.nextGrantAddress size align)
      size align none :: s.ledger.grants from ?_) rfl hbelow hdvd (by simp)
  simp [Ledger.record, MemoryResult.ofGrant, hentry, Ledger.addGrant]

theorem OwnedInvariant.allocateCustomGrant :
    (s.step (.allocateCustomGrant size align)).OwnedInvariant contract := by
  have hlayout := apply_layoutInvariant h.layout (.allocateCustomGrant size align) s.kernel
  have hplacement := apply_placement contract (.allocateCustomGrant size align) s.process s.kernel
  simp only [step, apply] at hlayout hplacement ⊢
  rcases s.process.allocateCustomGrant_cases contract size align with
    herror | ⟨_, _, -, halloc, hok⟩
  · rw [herror]
    exact h
  rw [hok] at hlayout hplacement ⊢
  rcases s.process.allocateInGrantRegionInternal_cases contract size align
    with hnone | ⟨-, _, -, -, hwrap, -, hsome⟩
  · rw [hnone] at halloc
    cases halloc
  rw [hsome] at halloc
  cases halloc
  obtain ⟨hbelow, hdvd⟩ :=
    nextGrantAddress_spec halign hfits hwrap
  refine h.push hlayout hplacement rfl rfl hbelow hdvd ?_
  rintro identifier ⟨⟩
  exact getCustomGrantAddress_create _ _

end

theorem OwnedInvariant.tryRestart (completionCode : Option (BitVec 32))
    (hword : 4 ∣ s.process.memoryStart.toNat + s.process.memoryLen.toNat) :
    (s.step (.tryRestart completionCode)).OwnedInvariant contract := by
  have hlayout := apply_layoutInvariant h.layout (.tryRestart completionCode) s.kernel
  have hplacement := apply_placement contract (.tryRestart completionCode) s.process s.kernel
  simp only [step, apply, ProcessStandard.tryRestart, Ledger.record] at hlayout hplacement ⊢
  by_cases hterm : s.process.state = .terminated
  · simp only [hterm]
    exact h
  simp only [hterm] at hlayout hplacement ⊢
  refine h.restarted hlayout hplacement rfl hword ?_
  have hplaced := ProcessStandard.placed_terminate h.layout.placed completionCode
  have hbreak := ProcessStandard.resetToYielded_kernelMemoryBreak contract hplaced s.kernel
  have hfixed := s.process.terminate_placement completionCode
  rwa [ProcessStandard.terminate_kernelMemoryBreak, ProcessStandard.memoryStart_congr hfixed,
    ProcessStandard.memoryLen_congr hfixed] at hbreak

theorem OwnedInvariant.start (hword : 4 ∣ s.process.memoryStart.toNat + s.process.memoryLen.toNat) :
    (s.step .start).OwnedInvariant contract := by
  have hlayout := apply_layoutInvariant h.layout .start s.kernel
  have hplacement := apply_placement contract .start s.process s.kernel
  simp only [step, apply, ProcessStandard.start, Ledger.record] at hlayout hplacement ⊢
  by_cases hterm : s.process.state = .terminated
  · simp only [hterm] at hlayout hplacement ⊢
    exact h.restarted hlayout hplacement rfl hword
      (ProcessStandard.resetToYielded_kernelMemoryBreak contract h.layout.placed s.kernel)
  · simp only [hterm, ne_eq]
    exact h

theorem OwnedInvariant.step {op : MemoryOp} (haligned : op.PowerOfTwoAligned)
    (hkeeps : op.KeepsApart (s.process.memoryStart.toNat + s.process.memoryLen.toNat)) :
    (s.step op).OwnedInvariant contract := by
  have hlayout := apply_layoutInvariant h.layout op s.kernel
  have hplacement := apply_placement contract op s.process s.kernel
  cases op with
  | brk newBreak =>
    exact h.of_same hlayout hplacement (s.process.brk_kernelMemoryBreak contract newBreak) rfl
  | sbrk increment =>
    refine h.of_same hlayout hplacement ?_ rfl
    simp only [Tracked.step, apply, sbrk_eq_brk]
    exact s.process.brk_kernelMemoryBreak contract _
  | buildReadwriteProcessBuffer bufStartAddr size =>
    refine h.of_same hlayout hplacement ?_ ?_
    · simp only [Tracked.step, apply]
      rcases s.process.buildReadwriteProcessBuffer_cases bufStartAddr size
        with ⟨error, herror⟩ | hempty | ⟨-, -, -, hram⟩
      · rw [herror]
      · rw [hempty]
      · rw [hram]
        rfl
    · simp only [Tracked.step, apply]
      cases (s.process.buildReadwriteProcessBuffer bufStartAddr size).1 with
      | ok accepted =>
        simp only [MemoryResult.ofBuffer, Ledger.record, Ledger.addBuffer]
        split <;> rfl
      | error error => rfl
  | buildReadonlyProcessBuffer bufStartAddr size =>
    refine h.of_same hlayout hplacement ?_ ?_
    · simp only [Tracked.step, apply]
      rcases s.process.buildReadonlyProcessBuffer_cases bufStartAddr size
        with ⟨error, herror⟩ | hempty | ⟨-, -, -, hram⟩ | ⟨-, -, -, -, hflash⟩
      · rw [herror]
      · rw [hempty]
      · rw [hram]
        rfl
      · rw [hflash]
    · simp only [Tracked.step, apply]
      cases (s.process.buildReadonlyProcessBuffer bufStartAddr size).1 with
      | ok accepted =>
        simp only [MemoryResult.ofBuffer, Ledger.record, Ledger.addBuffer]
        split <;> rfl
      | error error => rfl
  | allocateGrant grantNum driverNum size align =>
    obtain ⟨k, hk⟩ := haligned
    exact h.allocateGrant hk hkeeps
  | allocateCustomGrant size align =>
    obtain ⟨k, hk⟩ := haligned
    exact h.allocateCustomGrant hk hkeeps
  | terminate completionCode =>
    exact h.of_same hlayout hplacement (s.process.terminate_kernelMemoryBreak completionCode) rfl
  | tryRestart completionCode => exact h.tryRestart completionCode hkeeps
  | start => exact h.start hkeeps

end

/-! ## Runs -/

def created (p : ProcessStandard B) (kernel : Kernel) : Tracked B where
  process := p
  kernel := kernel
  ledger := .empty

theorem ownedInvariant_created (contract : B.chip.mpu.Contract) {arguments : CreateArguments}
    {kernel kernel0 : Kernel} {p0 : ProcessStandard B} {unused : MemorySlice}
    (hcreate : create arguments kernel = .ok (.ok (p0, unused), kernel0)) :
    (created p0 kernel0).OwnedInvariant contract := by
  have hlayout := layoutInvariant_create contract hcreate
  obtain ⟨identifier, start, len, config, _, -, rfl, -,
      hnoWrap, hkernel, -⟩ := create_ok contract hcreate
  obtain ⟨htable, hqueue, hrecord⟩ := layOut_addresses arguments identifier config hnoWrap hkernel
  have hobjects : (placement (layOut arguments identifier start len
        config)).ObjectsPlaced B := ⟨htable, hqueue, hrecord⟩
  exact {
    layout := hlayout
    objects := hobjects
    stacked := stacked_kernelObjects
      hobjects le_rfl
    aligned := by simp [created, Ledger.empty]
    recovered := by simp [created, Ledger.empty] }

theorem step_placement (contract : B.chip.mpu.Contract) (s : Tracked B) (op : MemoryOp) :
    (s.step op).process.placement = s.process.placement :=
  apply_placement contract op s.process s.kernel

theorem OwnedInvariant.run (ops : List MemoryOp) (h : s.OwnedInvariant contract)
    (haligned : ∀ op ∈ ops, op.PowerOfTwoAligned)
    (hkeeps : ∀ op ∈ ops, op.KeepsApart (s.process.memoryStart.toNat + s.process.memoryLen.toNat)) :
    (s.run ops).OwnedInvariant contract := by
  induction ops generalizing s with
  | nil => exact h
  | cons op ops ih =>
    have hplacement := s.step_placement contract op
    refine ih (h.step (haligned op mem_cons_self) (hkeeps op mem_cons_self))
      (fun other hother => haligned other (mem_cons_of_mem op hother)) ?_
    intro other hother
    rw [memoryStart_congr hplacement, memoryLen_congr hplacement]
    exact hkeeps other (mem_cons_of_mem op hother)

end Tracked

/-- If a process only requests grants which fit into the address space with
their alignment, and is only restarted if its block ends at a word boundary, the
memory the kernel owns is never used twice. -/
theorem kernel_owned_memory_apart (contract : B.chip.mpu.Contract) (arguments : CreateArguments)
    (kernel : Kernel) {p0 : ProcessStandard B} {unused : MemorySlice} {kernel0 : Kernel}
    (hcreate : ProcessStandard.create arguments kernel = .ok (.ok (p0, unused), kernel0))
    (ops : List MemoryOp) (haligned : ∀ op ∈ ops, op.PowerOfTwoAligned)
    (hkeeps : ∀ op ∈ ops, op.KeepsApart (p0.memoryStart.toNat + p0.memoryLen.toNat)) :
    let s := (Tracked.created p0 kernel0).run ops
    s.ownedRanges.Pairwise Word.Range.Disjoint ∧
    (∀ grant ∈ s.ledger.grants, grant.align.toNat ∣ grant.address.toNat) ∧
    (∀ r ∈ s.ownedRanges, s.process.kernelMemoryBreak.toNat ≤ r.start.toNat ∧
        r.stop ≤ s.process.memoryStart.toNat + s.process.memoryLen.toNat) ∧
    (∀ grant ∈ s.ledger.grants, ∀ identifier, grant.identifier = some identifier →
        s.process.getCustomGrantAddress identifier = grant.address) := by
  intro s
  have hinv : s.OwnedInvariant contract :=
    (Tracked.ownedInvariant_created contract hcreate).run ops haligned hkeeps
  refine ⟨hinv.stacked.pairwise_disjoint ?_, hinv.aligned, hinv.stacked.bounded, hinv.recovered⟩
  exact hinv.layout.placed.noWrap.le

theorem kernel_owned_memory_apart_small : ∃ (p0 : ProcessStandard smallBoard) (unused : MemorySlice)
      (kernel0 : Kernel), ProcessStandard.create (smallArguments 1024) ⟨0⟩ =
        .ok (.ok (p0, unused), kernel0) ∧ ((Tracked.created p0 kernel0).run
        [.allocateGrant 0 1 100 4, .tryRestart none,
          .allocateCustomGrant 10 8]).ownedRanges.Pairwise Word.Range.Disjoint := by
  refine ⟨_, _, _, rfl, (kernel_owned_memory_apart unalignedMpuContract
    (smallArguments 1024) ⟨0⟩ rfl _ ?_ ?_).1⟩
  · simp only [forall_mem_cons]
    exact ⟨⟨2, rfl⟩, trivial, ⟨3, rfl⟩, by simp⟩
  · decide

/-- Restarting a process whose block does not end at a word boundary puts the
next grant on top of the process record, and so does a grant of almost the size
of the address space. -/
theorem kernel_owned_memory_overlaps : (∃ (p0 : ProcessStandard smallBoard) (unused : MemorySlice)
      (kernel0 : Kernel), ProcessStandard.create (smallArguments 1025) ⟨0⟩ =
        .ok (.ok (p0, unused), kernel0) ∧ ¬ ((Tracked.created p0 kernel0).run
        [.tryRestart none, .allocateCustomGrant 1 1]).ownedRanges.Pairwise Word.Range.Disjoint) ∧
    (∃ (p0 : ProcessStandard smallBoard) (unused : MemorySlice) (kernel0 : Kernel),
      ProcessStandard.create (smallArguments 1024) ⟨0⟩ = .ok (.ok (p0, unused), kernel0) ∧
      ¬ ((Tracked.created p0 kernel0).run [.allocateCustomGrant 0xFFFFFFFF 1]).ownedRanges.Pairwise
            Word.Range.Disjoint) := by
  constructor
  all_goals
    refine ⟨_, _, _, rfl, ?_⟩
    intro hdisjoint
    have hrecord := (pairwise_cons.mp hdisjoint).1 ⟨0x20000404, 400⟩ (by decide) 0x20000404
    exact hrecord (by decide) (by decide)

end TockKernel

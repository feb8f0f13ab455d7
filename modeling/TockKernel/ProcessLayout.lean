import TockKernel.MemoryOps

/-!
# The memory layout of a process

The memory of a process is a block whose bottom belongs to the process and
whose top belongs to the kernel:

  `memory_start ≤ allow_high_water_mark ≤ app_break ≤ kernel_memory_break`

and the MPU region of the process ends between the last two. For every MPU
that keeps its contract this is an invariant of a running process under all
operations on its memory, with any arguments, and operations that fail leave
the layout as it was.
-/

namespace TockKernel

open ProcessStandard
open BitVec (le_def toNat_add toNat_sub_of_le)

variable {B : Board}

structure MemoryView (B : Board) where
  memoryStart : Usize
  memoryLen : Usize
  grantPointers : List GrantPointerEntry
  kernelMemoryBreak : Usize
  appBreak : Usize
  allowHighWaterMark : Usize
  mpuConfig : Option B.chip.mpu.MpuConfig
  flash : Slice
  header : TbfHeader
  grantPointersAddress : Usize
  upcallBufAddress : Usize
  processStructAddress : Usize

def ProcessStandard.memoryView (p : ProcessStandard B) : MemoryView B where
  memoryStart := p.memoryStart
  memoryLen := p.memoryLen
  grantPointers := p.grantPointers
  kernelMemoryBreak := p.kernelMemoryBreak
  appBreak := p.appBreak
  allowHighWaterMark := p.allowHighWaterMark
  mpuConfig := p.mpuConfig
  flash := p.flash
  header := p.header
  grantPointersAddress := p.grantPointersAddress
  upcallBufAddress := p.upcallBufAddress
  processStructAddress := p.processStructAddress

/-- Where the block of a process lies; fixed when the process is created. -/
structure MemoryView.Placed (v : MemoryView B) : Prop where
  memoryStart_pos : 0 < v.memoryStart.toNat
  noWrap : v.memoryStart.toNat + v.memoryLen.toNat < 2 ^ 32
  grantPointers_length : v.grantPointers.length = B.grantCount.toNat

theorem MemoryView.Placed.of_fields {v v' : MemoryView B} (h : v.Placed)
    (hstart : v'.memoryStart = v.memoryStart) (hlen : v'.memoryLen = v.memoryLen)
    (htable : v'.grantPointers.length = v.grantPointers.length) : v'.Placed where
  memoryStart_pos := hstart ▸ h.memoryStart_pos
  noWrap := by
    rw [hstart, hlen]
    exact h.noWrap
  grantPointers_length := htable.trans h.grantPointers_length

structure MemoryView.Ordered (v : MemoryView B) : Prop where
  start_le_highWaterMark : v.memoryStart.toNat ≤ v.allowHighWaterMark.toNat
  highWaterMark_le_appBreak : v.allowHighWaterMark.toNat ≤ v.appBreak.toNat
  appBreak_le_kernelBreak : v.appBreak.toNat ≤ v.kernelMemoryBreak.toNat
  kernelBreak_le_end : v.kernelMemoryBreak.toNat ≤ v.memoryStart.toNat + v.memoryLen.toNat

theorem MemoryView.Ordered.of_fields {v v' : MemoryView B} (h : v.Ordered)
    (hstart : v'.memoryStart = v.memoryStart) (hlen : v'.memoryLen = v.memoryLen)
    (hmark : v'.allowHighWaterMark = v.allowHighWaterMark) (happ : v'.appBreak = v.appBreak)
    (hkernel : v'.kernelMemoryBreak = v.kernelMemoryBreak) : v'.Ordered := by
  constructor
  · rw [hstart, hmark]
    exact h.start_le_highWaterMark
  · rw [hmark, happ]
    exact h.highWaterMark_le_appBreak
  · rw [happ, hkernel]
    exact h.appBreak_le_kernelBreak
  · rw [hkernel, hstart, hlen]
    exact h.kernelBreak_le_end

/-- The breaks are ordered and the MPU separates the process from the kernel
at them. -/
structure MemoryView.LaidOut (v : MemoryView B)
    (contract : B.chip.mpu.Contract) : Prop extends v.Ordered where
  separated : ∃ config region, v.mpuConfig = some config ∧ contract.appRegion config = some region ∧
    region.blockStart = v.memoryStart.toNat ∧
    region.blockEnd = v.memoryStart.toNat + v.memoryLen.toNat ∧
    region.Separates v.appBreak.toNat v.kernelMemoryBreak.toNat .readWriteOnly

/-- The block is fixed, the breaks are ordered, and the MPU separates them while
the process is running. -/
structure ProcessStandard.LayoutInvariant (contract : B.chip.mpu.Contract)
    (p : ProcessStandard B) : Prop where
  placed : p.memoryView.Placed
  ordered : p.memoryView.Ordered
  laidOut : p.isRunning = true → p.memoryView.LaidOut contract

namespace ProcessStandard

variable {contract : B.chip.mpu.Contract} {p : ProcessStandard B}

theorem LayoutInvariant.of_laidOut
    (hplaced : p.memoryView.Placed) (hlaid : p.memoryView.LaidOut contract) :
    p.LayoutInvariant contract :=
  ⟨hplaced, hlaid.toOrdered, fun _ => hlaid⟩

theorem LayoutInvariant.appBreak_pos (hinv : p.LayoutInvariant contract) : 0 < p.appBreak.toNat :=
  hinv.placed.memoryStart_pos.trans_le (hinv.ordered.start_le_highWaterMark.trans
      hinv.ordered.highWaterMark_le_appBreak)

theorem toNat_memEnd (hplaced : p.memoryView.Placed) :
    p.memEnd.toNat = p.memoryStart.toNat + p.memoryLen.toNat := by
  have hnoWrap : p.memoryStart.toNat + p.memoryLen.toNat < 2 ^ 32 := hplaced.noWrap
  rw [memEnd, toNat_add, Nat.mod_eq_of_lt hnoWrap]

/-! ## One operation -/

variable {config' config : B.chip.mpu.MpuConfig} {len : Usize}

section

variable (hlaid : p.memoryView.LaidOut contract)
include hlaid

theorem laidOut_brk {newBreak : Usize} (hcfg : p.mpuConfig = some config)
    (hlow : p.allowHighWaterMark ≤ newBreak) (hkernel : newBreak ≤ p.kernelMemoryBreak)
    (hupdate : B.chip.mpu.updateAppMemoryRegion newBreak p.kernelMemoryBreak .readWriteOnly config =
      (.ok (), config')) :
    { p with
      appBreak := newBreak
      mpuConfig := some (B.chip.mpu.configureMpu config') }.memoryView.LaidOut contract := by
  obtain ⟨config0, region, hconfig0, hregion, hstart, hend, -⟩ := hlaid.separated
  obtain rfl : config0 = config := Option.some.inj (hconfig0.symm.trans hcfg)
  have hmark := hlaid.start_le_highWaterMark
  have hkernelEnd := hlaid.kernelBreak_le_end
  obtain ⟨region', hregion', hstart', hend', hsep⟩ :=
    contract.update_ok newBreak p.kernelMemoryBreak _ _ _ region hregion
      (hstart.trans_le (hmark.trans hlow)) hkernel (hkernelEnd.trans_eq hend.symm) hupdate
  exact {
    start_le_highWaterMark := hmark
    highWaterMark_le_appBreak := hlow
    appBreak_le_kernelBreak := hkernel
    kernelBreak_le_end := hkernelEnd
    separated := ⟨_, region', rfl,
      (contract.configureMpu_appRegion config').trans hregion',
      hstart'.trans hstart, hend'.trans hend, hsep⟩ }

theorem laidOut_raiseAllowHighWaterMark {bufStartAddr size : Usize}
    (howned : p.inAppOwnedMemory bufStartAddr size) :
    (p.raiseAllowHighWaterMark bufStartAddr size).memoryView.LaidOut contract := by
  obtain ⟨-, hbelow⟩ := inAppOwnedMemory_iff.mp howned
  have hend : (bufStartAddr + size).toNat = bufStartAddr.toNat + size.toNat := by
    rw [toNat_add, Nat.mod_eq_of_lt (by omega)]
  have hmark : (p.raiseAllowHighWaterMark bufStartAddr size).allowHighWaterMark.toNat =
        max p.allowHighWaterMark.toNat (bufStartAddr.toNat + size.toNat) := by
    rw [raiseAllowHighWaterMark, toNat_cmpMax, hend]
  exact {
    start_le_highWaterMark :=
      hlaid.start_le_highWaterMark.trans ((le_max_left _ _).trans_eq hmark.symm)
    highWaterMark_le_appBreak :=
      hmark.trans_le (max_le hlaid.highWaterMark_le_appBreak hbelow)
    appBreak_le_kernelBreak := hlaid.appBreak_le_kernelBreak
    kernelBreak_le_end := hlaid.kernelBreak_le_end
    separated := hlaid.separated }

theorem laidOut_lowerKernelBreak {newBreak : Usize} (hcfg : p.mpuConfig = some config)
    (happ : p.appBreak ≤ newBreak) (hkernel : newBreak ≤ p.kernelMemoryBreak)
    (hupdate : B.chip.mpu.updateAppMemoryRegion p.appBreak newBreak .readWriteOnly config =
      (.ok (), config')) :
    { p with
      kernelMemoryBreak := newBreak
      mpuConfig := some config' }.memoryView.LaidOut contract := by
  obtain ⟨config0, region, hconfig0, hregion, hstart, hend, -⟩ := hlaid.separated
  obtain rfl : config0 = config := Option.some.inj (hconfig0.symm.trans hcfg)
  have hmark := hlaid.start_le_highWaterMark
  have happBreak := hlaid.highWaterMark_le_appBreak
  have hkernelEnd := hlaid.kernelBreak_le_end
  obtain ⟨region', hregion', hstart', hend', hsep⟩ :=
    contract.update_ok p.appBreak newBreak _ _ _ region hregion
      (hstart.trans_le (hmark.trans happBreak)) happ
      (hkernel.trans (hkernelEnd.trans_eq hend.symm)) hupdate
  exact {
    start_le_highWaterMark := hmark
    highWaterMark_le_appBreak := happBreak
    appBreak_le_kernelBreak := happ
    kernelBreak_le_end := hkernel.trans hkernelEnd
    separated := ⟨_, region', rfl, hregion', hstart'.trans hstart,
      hend'.trans hend, hsep⟩ }

theorem laidOut_allocateInGrantRegionInternal (size align : Usize) :
    (p.allocateInGrantRegionInternal size align).2.memoryView.LaidOut contract := by
  rcases p.allocateInGrantRegionInternal_cases contract size align with
    hnone | ⟨_, _, hcfg, happ, hkernel, hupdate, hsome⟩
  · rw [hnone]
    exact hlaid
  · rw [hsome]
    exact laidOut_lowerKernelBreak hlaid hcfg happ hkernel hupdate

end

/-! ## Restarting -/

section

variable (contract) (hplaced : p.memoryView.Placed) {start : Usize}
  (hreallocate : p.reallocate config = .ok (start, len, config'))
include contract hplaced hreallocate

theorem reallocate_ok :
    start = p.memoryStart ∧ len = p.memoryLen ∧ B.kernelObjectsSize ≤ p.memoryLen.toNat ∧
      ∃ region, contract.appRegion config' = some region ∧ region.blockStart = p.memoryStart.toNat ∧
        region.blockEnd = p.memoryStart.toNat + p.memoryLen.toNat ∧ region.Separates
          (p.memoryStart.toNat + B.chip.ukb.initialProcessAppBrkSize.toNat)
          (p.memoryStart.toNat + p.memoryLen.toNat - B.kernelObjectsSize) .readWriteOnly := by
  unfold reallocate at hreallocate
  rcases hflash : B.chip.mpu.allocateRegion p.flash.start p.flash.len
    p.flash.len .readExecuteOnly (B.chip.mpu.resetConfig config) with ⟨flashRegion, flashConfig⟩
  rw [hflash] at hreallocate
  cases flashRegion with
  | none => cases hreallocate
  | some flashRegion =>
    simp only at hreallocate
    rcases happ : B.chip.mpu.allocateAppMemoryRegion p.memStart p.memoryLen
      p.memoryLen B.chip.ukb.initialProcessAppBrkSize
      (resetKernelMemorySize B) .readWriteOnly flashConfig with ⟨block, _⟩
    rw [happ] at hreallocate
    cases block with
    | none => cases hreallocate
    | some block =>
      obtain ⟨_, _⟩ := block
      cases hreallocate
      obtain ⟨hlow, hhigh, hmin, hkernel, region, hregion, hstart, hend, hsep⟩ :=
        contract.allocateApp_some _ _ _ _ _ _ _ _ _ _ hplaced.noWrap happ
      rw [resetKernelMemorySize, B.toNat_kernelObjects] at hkernel hsep
      have hlow' : p.memoryStart.toNat ≤ start.toNat := hlow
      have hhigh' : start.toNat + len.toNat ≤ p.memoryStart.toNat + p.memoryLen.toNat := hhigh
      obtain rfl : start = p.memoryStart := BitVec.eq_of_toNat_eq (by omega)
      obtain rfl : len = p.memoryLen := BitVec.eq_of_toNat_eq (by omega)
      exact ⟨rfl, rfl, hkernel, region, hregion, hstart, hend, hsep⟩

theorem toNat_relayOut_kernelMemoryBreak : (p.relayOut start len config').kernelMemoryBreak.toNat =
      p.memoryStart.toNat + p.memoryLen.toNat - B.kernelObjectsSize := by
  obtain ⟨rfl, rfl, hkernel, -⟩ := reallocate_ok contract hplaced hreallocate
  have hend : (p.memoryStart + p.memoryLen).toNat =
      p.memoryStart.toNat + p.memoryLen.toNat := toNat_memEnd hplaced
  rw [relayOut, resetKernelMemorySize, toNat_sub_of_le, B.toNat_kernelObjects, hend]
  rw [le_def, B.toNat_kernelObjects]
  omega

theorem relayOut_laidOut : (p.relayOut start len config').memoryView.LaidOut contract := by
  have hbreak := toNat_relayOut_kernelMemoryBreak contract hplaced hreallocate
  obtain ⟨rfl, rfl, -, region, hregion, hstart, hend, hsep⟩ :=
    reallocate_ok contract hplaced hreallocate
  have happKernel := hsep.covers.trans hsep.below_kernel
  have happ : (p.relayOut p.memoryStart p.memoryLen config').appBreak.toNat =
      p.memoryStart.toNat + B.chip.ukb.initialProcessAppBrkSize.toNat := by
    rw [relayOut, toNat_add, Nat.mod_eq_of_lt (by omega)]
  refine ⟨⟨le_rfl, ?_, ?_, ?_⟩, config', region, rfl, hregion, hstart, hend,
    hsep.start_le, ?_, ?_, hsep.permissions_eq⟩
  · exact (Nat.le_add_right _ _).trans_eq happ.symm
  · exact (happ.trans_le happKernel).trans_eq hbreak.symm
  · exact hbreak.trans_le (Nat.sub_le _ _)
  · exact happ.trans_le hsep.covers
  · exact hsep.below_kernel.trans_eq hbreak.symm

end

@[simp]
theorem enqueueTask_memoryView (p : ProcessStandard B) (task : Task) :
    (p.enqueueTask task).2.memoryView = p.memoryView := by
  unfold enqueueTask
  split
  · rfl
  · split <;> rfl

@[simp]
theorem initializeAgain_memoryView (p : ProcessStandard B) (appMpuMemStart : Usize) :
    (p.initializeAgain appMpuMemStart).2.memoryView = p.memoryView := by
  unfold initializeAgain
  split
  · rfl
  · rw [enqueueTask_memoryView]
    rfl

theorem resetAs_layout (contract : B.chip.mpu.Contract) (hplaced : p.memoryView.Placed)
    (hordered : p.memoryView.Ordered) (hstopped : p.isRunning = false) (identifier : Usize) :
    (p.resetAs identifier).2.memoryView.Placed ∧ (p.resetAs identifier).2.memoryView.Ordered ∧
      ((p.resetAs identifier).2.isRunning ∨ (p.resetAs identifier).1 = .ok () →
          (p.resetAs identifier).2.memoryView.LaidOut contract) := by
  unfold resetAs
  simp only
  cases hcfg : (p.newIncarnation identifier).mpuConfig with
  | none =>
    refine ⟨hplaced, hordered, ?_⟩
    rintro (hrun | hok)
    · exact absurd (hrun.symm.trans hstopped) (by decide)
    · cases hok
  | some config =>
    simp only
    cases hreallocate : (p.newIncarnation identifier).reallocate config with
    | error error =>
      refine ⟨hplaced.of_fields rfl rfl rfl, hordered.of_fields rfl rfl rfl rfl rfl, ?_⟩
      rintro (hrun | hok)
      · exact absurd (hrun.symm.trans hstopped) (by decide)
      · cases hok
    | ok block =>
      simp only [initializeAgain_memoryView]
      have hlaid := relayOut_laidOut contract hplaced hreallocate
      exact ⟨hplaced.of_fields rfl rfl rfl, hlaid.toOrdered, fun _ => hlaid⟩

theorem layoutInvariant_resetToYielded (hplaced : p.memoryView.Placed)
    (hordered : p.memoryView.Ordered) (hstopped : p.isRunning = false) (kernel : Kernel) :
    (p.resetToYielded kernel).1.LayoutInvariant contract := by
  obtain ⟨hplaced', hordered', hlaid⟩ := resetAs_layout contract hplaced
    hordered hstopped kernel.processIdentifierMax
  unfold resetToYielded reset Kernel.createProcessIdentifier
  simp only
  rcases hreset : p.resetAs kernel.processIdentifierMax with ⟨result, _⟩
  rw [hreset] at hplaced' hordered' hlaid
  cases result with
  | ok _ => exact ⟨hplaced', hordered', fun _ => hlaid (.inr rfl)⟩
  | error error =>
    exact ⟨hplaced', hordered', fun hrun => hlaid (.inl hrun)⟩

theorem terminate_cases (p : ProcessStandard B) (completionCode : Option (BitVec 32)) :
    (p.isRunning = false ∧ p.state ≠ .faulted ∧ p.terminate completionCode = p) ∨
    ((p.isRunning ∨ p.state = .faulted) ∧
      p.terminate completionCode = { p.grantPtrsReset with
        tasks := p.tasks.empty
        completionCode := some completionCode
        state := .terminated }) := by
  unfold terminate
  cases hrun : p.isRunning with
  | true => exact .inr ⟨.inl rfl, rfl⟩
  | false =>
    by_cases hfaulted : p.state = .faulted
    · exact .inr ⟨.inr hfaulted, by simp [hfaulted]⟩
    · exact .inl ⟨rfl, hfaulted, by simp [hfaulted]⟩

theorem terminate_isRunning (p : ProcessStandard B) (completionCode : Option (BitVec 32)) :
    (p.terminate completionCode).isRunning = false := by
  rcases p.terminate_cases completionCode with
    ⟨hstopped, -, hsame⟩ | ⟨-, hterm⟩
  · rw [hsame, hstopped]
  · rw [hterm]
    rfl

theorem placed_terminate (hplaced : p.memoryView.Placed) (completionCode : Option (BitVec 32)) :
    (p.terminate completionCode).memoryView.Placed := by
  rcases p.terminate_cases completionCode with
    ⟨-, -, hsame⟩ | ⟨-, hterm⟩
  · rw [hsame]
    exact hplaced
  · rw [hterm]
    exact hplaced.of_fields rfl rfl (List.length_map _)

theorem ordered_terminate (hordered : p.memoryView.Ordered) (completionCode : Option (BitVec 32)) :
    (p.terminate completionCode).memoryView.Ordered := by
  rcases p.terminate_cases completionCode with
    ⟨-, -, hsame⟩ | ⟨-, hterm⟩
  · rw [hsame]
    exact hordered
  · rw [hterm]
    exact hordered.of_fields rfl rfl rfl rfl rfl

section

variable (hinv : p.LayoutInvariant contract)
include hinv

theorem LayoutInvariant.terminate (completionCode : Option (BitVec 32)) :
    (p.terminate completionCode).LayoutInvariant contract where
  placed := placed_terminate hinv.placed completionCode
  ordered := ordered_terminate hinv.ordered completionCode
  laidOut := by
    rw [terminate_isRunning]
    exact fun hrun => absurd hrun (by decide)

theorem LayoutInvariant.tryRestart (completionCode : Option (BitVec 32)) (kernel : Kernel) :
    (p.tryRestart completionCode kernel).1.LayoutInvariant contract := by
  unfold ProcessStandard.tryRestart
  split_ifs with hterm
  · exact hinv
  · exact layoutInvariant_resetToYielded (placed_terminate hinv.placed completionCode)
      (ordered_terminate hinv.ordered completionCode) (p.terminate_isRunning completionCode) kernel

theorem LayoutInvariant.start (kernel : Kernel) : (p.start kernel).1.LayoutInvariant contract := by
  unfold ProcessStandard.start
  split_ifs with hterm
  · exact hinv
  rw [not_not] at hterm
  exact layoutInvariant_resetToYielded hinv.placed hinv.ordered (by simp [isRunning, hterm]) kernel

theorem LayoutInvariant.brk (newBreak : Usize) : (p.brk newBreak).2.LayoutInvariant contract := by
  rcases p.brk_cases contract newBreak with
    ⟨_, herror⟩ | ⟨_, _, hrun, hcfg, hlow, -, hkernel, hupdate, hok⟩
  · rw [herror]
    exact hinv
  rw [hok]
  exact .of_laidOut (hinv.placed.of_fields rfl rfl rfl)
    (laidOut_brk (hinv.laidOut hrun) hcfg hlow hkernel hupdate)

theorem LayoutInvariant.raiseAllowHighWaterMark (hrun : p.isRunning)
    {bufStartAddr size : Usize} (howned : p.inAppOwnedMemory bufStartAddr size) :
    (p.raiseAllowHighWaterMark bufStartAddr size).LayoutInvariant contract :=
  .of_laidOut (hinv.placed.of_fields rfl rfl rfl)
    (laidOut_raiseAllowHighWaterMark (hinv.laidOut hrun) howned)

theorem LayoutInvariant.buildReadwriteProcessBuffer (bufStartAddr size : Usize) :
    (p.buildReadwriteProcessBuffer bufStartAddr size).2.LayoutInvariant contract := by
  rcases p.buildReadwriteProcessBuffer_cases bufStartAddr size with
    ⟨_, herror⟩ | hempty | ⟨hrun, -, howned, hram⟩
  · rw [herror]
    exact hinv
  · rw [hempty]
    exact hinv
  · rw [hram]
    exact hinv.raiseAllowHighWaterMark hrun howned

theorem LayoutInvariant.buildReadonlyProcessBuffer (bufStartAddr size : Usize) :
    (p.buildReadonlyProcessBuffer bufStartAddr size).2.LayoutInvariant contract := by
  rcases p.buildReadonlyProcessBuffer_cases bufStartAddr size with
    ⟨_, herror⟩ | hempty | ⟨hrun, -, howned, hram⟩ | ⟨-, -, -, -, hflash⟩
  · rw [herror]
    exact hinv
  · rw [hempty]
    exact hinv
  · rw [hram]
    exact hinv.raiseAllowHighWaterMark hrun howned
  · rw [hflash]
    exact hinv

end

theorem allocateInGrantRegionInternal_frame (contract : B.chip.mpu.Contract) (p : ProcessStandard B)
    (size align : Usize) :
    ∃ kernelMemoryBreak mpuConfig,
      (p.allocateInGrantRegionInternal size align).2 = { p with
        kernelMemoryBreak := kernelMemoryBreak
        mpuConfig := mpuConfig } := by
  rcases p.allocateInGrantRegionInternal_cases contract size align with
    hnone | ⟨-, _, -, -, -, -, hsome⟩
  · exact ⟨p.kernelMemoryBreak, p.mpuConfig, by rw [hnone]⟩
  · exact ⟨_, _, by rw [hsome]⟩

section

variable (hinv : p.LayoutInvariant contract)
include hinv

theorem LayoutInvariant.allocateInGrantRegionInternal (hrun : p.isRunning) (size align : Usize) :
    (p.allocateInGrantRegionInternal size align).2.LayoutInvariant contract := by
  obtain ⟨_, _, hframe⟩ := allocateInGrantRegionInternal_frame contract p size align
  refine .of_laidOut ?_ (laidOut_allocateInGrantRegionInternal (hinv.laidOut hrun) size align)
  rw [hframe]
  exact hinv.placed.of_fields rfl rfl rfl

theorem LayoutInvariant.allocateCustomGrant (size align : Usize) :
    (p.allocateCustomGrant size align).2.LayoutInvariant contract := by
  rcases p.allocateCustomGrant_cases contract size align with
    herror | ⟨_, _, hrun, halloc, hok⟩
  · rw [herror]
    exact hinv
  have hinv' := hinv.allocateInGrantRegionInternal hrun size align
  rw [halloc] at hinv'
  rw [hok]
  exact hinv'

theorem LayoutInvariant.allocateGrant (grantNum driverNum size align : Usize) :
    (p.allocateGrant grantNum driverNum size align).2.LayoutInvariant contract := by
  rcases p.allocateGrant_cases contract hinv.placed.grantPointers_length
    grantNum driverNum size align with
    herror | ⟨_, _, hrun, -, -, -, halloc, hok⟩
  · rw [herror]
    exact hinv
  have hinv' := hinv.allocateInGrantRegionInternal hrun size align
  rw [halloc] at hinv'
  rw [hok]
  refine ⟨hinv'.placed.of_fields rfl rfl (List.length_set ..),
    hinv'.ordered.of_fields rfl rfl rfl rfl rfl, ?_⟩
  intro hrunning'
  have hlaid := hinv'.laidOut hrunning'
  exact ⟨hlaid.toOrdered.of_fields rfl rfl rfl rfl rfl, hlaid.separated⟩

end

/-! ## Creating -/

theorem skipToFixedAddress_ok {header : TbfHeader} {remaining remaining' : MemorySlice}
    (hnoWrap : remaining.start.toNat + remaining.len.toNat < 2 ^ 32)
    (hskip : skipToFixedAddress header remaining = .ok remaining') :
    remaining.start.toNat ≤ remaining'.start.toNat ∧
      remaining'.start.toNat + remaining'.len.toNat < 2 ^ 32 := by
  unfold skipToFixedAddress at hskip
  cases hfixed : header.getFixedAddressRam with
  | none =>
    rw [hfixed] at hskip
    cases hskip
    exact ⟨le_rfl, hnoWrap⟩
  | some fixedMemoryStart =>
    rw [hfixed] at hskip
    simp only at hskip
    split_ifs at hskip with hsame hlater hdiff
    · cases hskip
      exact ⟨le_rfl, hnoWrap⟩
    cases hskip
    bv_omega

theorem create_ok (contract : B.chip.mpu.Contract) {arguments : CreateArguments}
    {kernel kernel' : Kernel} {p : ProcessStandard B} {unused : MemorySlice}
    (hcreate : create arguments kernel = .ok (.ok (p, unused), kernel')) :
    ∃ identifier start len config storedState region,
      p = { layOut arguments identifier start len config with
        storedState := storedState
        tasks := ((layOut arguments identifier start len config).tasks.enqueue
          (layOut arguments identifier start len config).initTask).2 } ∧
      0 < start.toNat ∧ start.toNat + len.toNat < 2 ^ 32 ∧
      B.kernelObjectsSize + 4 ≤ len.toNat ∧
      contract.appRegion config = some region ∧
      region.blockStart = start.toNat ∧
      region.blockEnd = start.toNat + len.toNat ∧
      region.Separates (start.toNat + B.chip.ukb.initialProcessAppBrkSize.toNat)
        (start.toNat + len.toNat - (B.kernelObjectsSize + 4)) .readWriteOnly := by
  unfold create at hcreate
  simp only at hcreate
  split at hcreate
  · cases hcreate
  split at hcreate
  · cases hcreate
  split at hcreate
  · cases hcreate
  rename_i remaining hskip
  split at hcreate
  · cases hcreate
  rename_i start len config happ
  split_ifs at hcreate with hmismatch hsplit
  · cases hcreate
  obtain ⟨hstart, hnoWrap⟩ := skipToFixedAddress_ok arguments.remainingMemory.noWrap hskip
  obtain ⟨hlow, hhigh, -, hkernel, region, hregion, hblockStart, hblockEnd, hsep⟩ :=
    contract.allocateApp_some _ _ _ _ _ _ _ _ _ _ hnoWrap happ
  rw [B.toNat_kernelObjects_add_four] at hkernel hsep
  have hpos := arguments.remainingMemory.start_pos
  have hstartEq : remaining.start + (start - remaining.start) = start := by
    bv_omega
  have hlenEq : start - remaining.start + len - (start - remaining.start) = len := by bv_omega
  rw [hstartEq, hlenEq] at hcreate
  unfold createIn Kernel.createProcessIdentifier at hcreate
  simp only at hcreate
  split at hcreate
  · cases hcreate
  cases hcreate
  exact ⟨_, start, len, config, _, region, rfl, hpos.trans_le
    (hstart.trans hlow), hhigh.trans_lt hnoWrap, hkernel, hregion, hblockStart, hblockEnd, hsep⟩

theorem layOut_addresses (arguments : CreateArguments) (identifier : Usize)
    {start : Usize} (config : B.chip.mpu.MpuConfig) (hnoWrap : start.toNat + len.toNat < 2 ^ 32)
    (hkernel : B.kernelObjectsSize + 4 ≤ len.toNat) :
    let p := layOut arguments identifier start len config
    let blockEnd := start.toNat + len.toNat
    p.grantPointersAddress.toNat + B.grantCount.toNat * 8 = blockEnd - blockEnd % 4 ∧
      p.upcallBufAddress.toNat + B.chip.sizeOfTask.toNat * 10 = p.grantPointersAddress.toNat ∧
      p.processStructAddress.toNat + B.chip.sizeOfProcessStandard.toNat =
        p.upcallBufAddress.toNat := by
  have htable := B.toNat_grantPtrsOffset
  have hqueue := B.toNat_callbacksOffset
  have hrecord : B.processStructOffset.toNat = B.chip.sizeOfProcessStandard.toNat := rfl
  unfold Board.kernelObjectsSize at hkernel
  have hend : (start + len).toNat = start.toNat + len.toNat := by
    rw [toNat_add, Nat.mod_eq_of_lt hnoWrap]
  have hpadding : ((start + len) % 4).toNat = (start.toNat + len.toNat) % 4 := by
    rw [BitVec.toNat_umod, hend]
    rfl
  have hboundary : (start + len - (start + len) % 4).toNat =
      start.toNat + len.toNat - (start.toNat + len.toNat) % 4 := by
    rw [toNat_sub_of_le, hend, hpadding]
    rw [le_def, hend, hpadding]
    exact Nat.mod_le _ _
  have haddr : (start + len - (start + len) % 4 - B.grantPtrsOffset).toNat =
        start.toNat + len.toNat - (start.toNat + len.toNat) % 4 - B.grantCount.toNat * 8 := by
    rw [toNat_sub_of_le, hboundary, htable]
    rw [le_def, hboundary, htable]
    omega
  have haddress' : (start + len - (start + len) % 4 - B.grantPtrsOffset - B.callbacksOffset).toNat =
        start.toNat + len.toNat - (start.toNat + len.toNat) % 4 -
          B.grantCount.toNat * 8 - B.chip.sizeOfTask.toNat * 10 := by
    rw [toNat_sub_of_le, haddr, hqueue]
    rw [le_def, haddr, hqueue]
    omega
  have haddress'' : (start + len - (start + len) % 4 - B.grantPtrsOffset -
      B.callbacksOffset - B.processStructOffset).toNat =
        start.toNat + len.toNat - (start.toNat + len.toNat) % 4 -
          B.grantCount.toNat * 8 - B.chip.sizeOfTask.toNat * 10 -
            B.chip.sizeOfProcessStandard.toNat := by
    rw [toNat_sub_of_le, haddress', hrecord]
    rw [le_def, haddress', hrecord]
    omega
  simp only [layOut, haddr, haddress', haddress'']
  omega

theorem layoutInvariant_create (contract : B.chip.mpu.Contract) {arguments : CreateArguments}
    {kernel kernel' : Kernel} {p : ProcessStandard B} {unused : MemorySlice}
    (hcreate : create arguments kernel = .ok (.ok (p, unused), kernel')) :
    p.LayoutInvariant contract := by
  obtain ⟨identifier, start, len, config, -, region, rfl, hpos,
      hnoWrap, hkernel, hregion, hblockStart, hblockEnd, hsep⟩ :=
    create_ok contract hcreate
  obtain ⟨htable, hqueue, hrecord⟩ := layOut_addresses arguments identifier config hnoWrap hkernel
  have hbelow := hsep.covers.trans hsep.below_kernel
  have happ : (start + B.chip.ukb.initialProcessAppBrkSize).toNat =
        start.toNat + B.chip.ukb.initialProcessAppBrkSize.toNat := by
    rw [toNat_add, Nat.mod_eq_of_lt (by omega)]
  have hbreak : start.toNat + len.toNat - (B.kernelObjectsSize + 4) ≤
      (layOut arguments identifier start len config).processStructAddress.toNat := by
    unfold Board.kernelObjectsSize
    omega
  refine .of_laidOut ⟨hpos, hnoWrap, List.length_replicate⟩ ?_
  refine ⟨⟨le_rfl, ?_, ?_, ?_⟩, config, region, rfl, hregion, hblockStart,
    hblockEnd, hsep.start_le, ?_, ?_, hsep.permissions_eq⟩
  · exact (Nat.le_add_right _ _).trans_eq happ.symm
  · exact happ.trans_le (hbelow.trans hbreak)
  · exact (show (layOut arguments identifier start len config).processStructAddress.toNat
        ≤ start.toNat + len.toNat by omega)
  · exact happ.trans_le hsep.covers
  · exact hsep.below_kernel.trans hbreak

end ProcessStandard

/-! ## Runs -/

namespace MemoryOp

variable {contract : B.chip.mpu.Contract} {p : ProcessStandard B}

theorem apply_layoutInvariant
    (hinv : p.LayoutInvariant contract) (op : MemoryOp) (kernel : Kernel) :
    (op.apply p kernel).2.1.LayoutInvariant contract := by
  cases op with
  | brk newBreak => exact hinv.brk newBreak
  | sbrk increment =>
    simp only [apply, sbrk_eq_brk]
    exact hinv.brk _
  | buildReadwriteProcessBuffer bufStartAddr size =>
    exact hinv.buildReadwriteProcessBuffer bufStartAddr size
  | buildReadonlyProcessBuffer bufStartAddr size =>
    exact hinv.buildReadonlyProcessBuffer bufStartAddr size
  | allocateGrant grantNum driverNum size align =>
    exact hinv.allocateGrant grantNum driverNum size align
  | allocateCustomGrant size align => exact hinv.allocateCustomGrant size align
  | terminate completionCode => exact hinv.terminate completionCode
  | tryRestart completionCode => exact hinv.tryRestart completionCode kernel
  | start => exact hinv.start kernel

theorem run_layoutInvariant (ops : List MemoryOp) {s : ProcessStandard B × Kernel}
    (hinv : s.1.LayoutInvariant contract) : (run ops s).1.LayoutInvariant contract := by
  induction ops generalizing s with
  | nil => exact hinv
  | cons op ops ih => exact ih (apply_layoutInvariant hinv op s.2)

theorem apply_failed (contract : B.chip.mpu.Contract) (hplaced : p.memoryView.Placed)
    {op : MemoryOp} {kernel : Kernel} (hfailed : (op.apply p kernel).1 = .failed) :
    (op.apply p kernel).2 = (p, kernel) := by
  have hbrk : ∀ newBreak, MemoryResult.ofBreak (p.brk newBreak).1 = .failed →
      (p.brk newBreak).2 = p := by
    intro newBreak hres
    rcases p.brk_cases contract newBreak with
      ⟨error, herror⟩ | ⟨-, _, -, -, -, -, -, -, hok⟩
    · rw [herror]
    · rw [hok] at hres
      cases hres
  cases op with
  | brk newBreak => exact Prod.ext (hbrk newBreak hfailed) rfl
  | sbrk increment =>
    simp only [apply, sbrk_eq_brk] at hfailed ⊢
    exact Prod.ext (hbrk _ hfailed) rfl
  | buildReadwriteProcessBuffer bufStartAddr size =>
    simp only [apply] at hfailed ⊢
    rcases p.buildReadwriteProcessBuffer_cases bufStartAddr size with
      ⟨error, herror⟩ | hempty | ⟨-, -, -, hram⟩
    · rw [herror]
    · rw [hempty]
    · rw [hram] at hfailed
      cases hfailed
  | buildReadonlyProcessBuffer bufStartAddr size =>
    simp only [apply] at hfailed ⊢
    rcases p.buildReadonlyProcessBuffer_cases bufStartAddr size with
      ⟨error, herror⟩ | hempty | ⟨-, -, -, hram⟩ | ⟨-, -, -, -, hflash⟩
    · rw [herror]
    · rw [hempty]
    · rw [hram] at hfailed
      cases hfailed
    · rw [hflash]
  | allocateGrant grantNum driverNum size align =>
    simp only [apply] at hfailed ⊢
    rcases p.allocateGrant_cases contract hplaced.grantPointers_length
      grantNum driverNum size align with
      herror | ⟨ptr, p', -, -, -, -, -, hok⟩
    · rw [herror]
    · rw [hok] at hfailed
      cases hfailed
  | allocateCustomGrant size align =>
    simp only [apply] at hfailed ⊢
    rcases p.allocateCustomGrant_cases contract size align with
      herror | ⟨ptr, p', -, -, hok⟩
    · rw [herror]
    · rw [hok] at hfailed
      cases hfailed
  | terminate completionCode | tryRestart completionCode | start => cases hfailed

end MemoryOp

/-- In every state after its creation, the breaks of a process are ordered and
separated by the MPU as long as it is running, and a call that fails leaves the
breaks and the MPU configuration as they were. -/
theorem process_memory_layout (contract : B.chip.mpu.Contract) (arguments : CreateArguments)
    (kernel : Kernel) {p0 : ProcessStandard B} {unused : MemorySlice} {kernel0 : Kernel}
    (hcreate : ProcessStandard.create arguments kernel = .ok (.ok (p0, unused), kernel0))
    (ops : List MemoryOp) :
    let s := MemoryOp.run ops (p0, kernel0)
    let p := s.1
    (p.isRunning = true → p.memoryStart ≤ p.allowHighWaterMark ∧ p.allowHighWaterMark ≤ p.appBreak ∧
      p.appBreak ≤ p.kernelMemoryBreak ∧
      p.kernelMemoryBreak.toNat ≤ p.memoryStart.toNat + p.memoryLen.toNat ∧
      ∃ config region, p.mpuConfig = some config ∧ contract.appRegion config = some region ∧
        region.start ≤ p.memoryStart.toNat ∧ p.appBreak.toNat ≤ region.stop ∧
        region.stop ≤ p.kernelMemoryBreak.toNat ∧ region.permissions = .readWriteOnly) ∧
    ∀ op : MemoryOp, (op.apply p s.2).1 = .failed →
      (op.apply p s.2).2.1.allowHighWaterMark = p.allowHighWaterMark ∧
      (op.apply p s.2).2.1.appBreak = p.appBreak ∧
      (op.apply p s.2).2.1.kernelMemoryBreak = p.kernelMemoryBreak ∧
      (op.apply p s.2).2.1.mpuConfig = p.mpuConfig := by
  intro s p
  have hinv : p.LayoutInvariant contract :=
    MemoryOp.run_layoutInvariant ops (layoutInvariant_create contract hcreate)
  constructor
  · intro hrun
    have hlaid := hinv.laidOut hrun
    obtain ⟨config, region, hcfg, hregion, hstart, -, hsep⟩ := hlaid.separated
    exact ⟨hlaid.start_le_highWaterMark, hlaid.highWaterMark_le_appBreak,
      hlaid.appBreak_le_kernelBreak, hlaid.kernelBreak_le_end,
      config, region, hcfg, hregion, hsep.start_le.trans_eq hstart,
      hsep.covers, hsep.below_kernel, hsep.permissions_eq⟩
  · intro op hfailed
    rw [MemoryOp.apply_failed contract hinv.placed hfailed]
    exact ⟨rfl, rfl, rfl, rfl⟩

/-! ## A concrete process -/

def idleUkb : UserspaceKernelBoundary where
  StoredState := Unit
  default := ()
  initialProcessAppBrkSize := 32
  initializeProcess _ _ storedState := (.ok (), storedState)
  setSyscallReturnValue _ _ storedState _ := (.ok (), storedState)
  setProcessFunction _ _ storedState _ := (.ok (), storedState)
  switchToProcess _ _ storedState := ((.interrupted, none), storedState)

def smallBoard : Board where
  chip := {
    mpu := unalignedMpu
    ukb := idleUkb
    sizeOfTask := 28
    sizeOfProcessStandard := 400 }
  grantCount := 2
  four_dvd_sizeOfTask := by decide
  four_dvd_sizeOfProcessStandard := by decide
  kernelObjects_fit := by decide

/-- Arguments for a process that asks for `ramSize` bytes of memory. -/
def smallArguments (ramSize : BitVec 32) : CreateArguments where
  pb := {
    header := ⟨64, some ⟨0, 0, ramSize⟩, none, []⟩
    flash := ⟨0x10000, 0x1000, by decide, by decide⟩ }
  remainingMemory := ⟨0x20000000, 0x4000, by decide, by decide⟩
  faultPolicy _ := .restart
  index := 0
  memory _ := 0
  upcallBuf _ := .ipc ⟨0, 0⟩ .service

theorem process_memory_layout_small : ∃ (p0 : ProcessStandard smallBoard) (unused : MemorySlice)
      (kernel0 : Kernel), ProcessStandard.create (smallArguments 1024) ⟨0⟩ =
        .ok (.ok (p0, unused), kernel0) ∧
      let p := (MemoryOp.run [.brk 0x20000200, .allocateGrant 0 1 100 4, .tryRestart none,
          .sbrk 64] (p0, kernel0)).1
      p.isRunning = true ∧ p.appBreak ≤ p.kernelMemoryBreak :=
  ⟨_, _, _, rfl, rfl, ((process_memory_layout unalignedMpuContract
    (smallArguments 1024) ⟨0⟩ rfl [.brk 0x20000200, .allocateGrant 0 1 100 4,
      .tryRestart none, .sbrk 64]).1 rfl).2.2.1⟩

end TockKernel

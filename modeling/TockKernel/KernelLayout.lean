import TockKernel.SchedulerSafety

/-!
# Memory layout along runs of the kernel

The layout invariant of a process holds in every state of every run of the
kernel, for every MPU that keeps its contract.
-/

namespace TockKernel

variable {B : Board} {platform : Platform} {rejects drops : Prop}
  {contract : B.chip.mpu.Contract} {s s' : KernelState B}

namespace ProcessStandard

variable {p p' : ProcessStandard B}

section

variable (h : p.LayoutInvariant contract)
include h

theorem LayoutInvariant.of_memoryView (hview : p'.memoryView = p.memoryView)
    (hrun : p'.isRunning = p.isRunning) : p'.LayoutInvariant contract where
  placed := by
    rw [hview]
    exact h.placed
  ordered := by
    rw [hview]
    exact h.ordered
  laidOut := by
    rw [hview, hrun]
    exact h.laidOut

theorem LayoutInvariant.of_mpuConfig {mpuConfig : Option B.chip.mpu.MpuConfig}
    (mpuRegions : List (Option Region))
    (hregion : ∀ config, p.mpuConfig = some config → ∃ config', mpuConfig = some config' ∧
      contract.appRegion config' = contract.appRegion config) :
    { p with mpuConfig := mpuConfig, mpuRegions := mpuRegions }.LayoutInvariant contract where
  placed := h.placed.of_fields rfl rfl rfl
  ordered := h.ordered.of_fields rfl rfl rfl rfl rfl
  laidOut hrun := by
    have hlaid := h.laidOut hrun
    refine ⟨hlaid.toOrdered.of_fields rfl rfl rfl rfl rfl, ?_⟩
    obtain ⟨config, region, hcfg, happ, hseparated⟩ := hlaid.separated
    obtain ⟨config', hconfig', hsame⟩ := hregion config hcfg
    exact ⟨config', region, hconfig', hsame.trans happ, hseparated⟩

theorem LayoutInvariant.setupMpu : p.setupMpu.LayoutInvariant contract := by
  refine h.of_mpuConfig p.mpuRegions fun config hcfg => ?_
  exact ⟨B.chip.mpu.configureMpu config, by rw [hcfg]; rfl, contract.configureMpu_appRegion config⟩

end

theorem addMpuRegion_outcome (p : ProcessStandard B) (start size minSize : Usize) :
    (p.addMpuRegion start size minSize).2 = p ∨ ∃ config mpuRegions, p.mpuConfig = some config ∧
        (p.addMpuRegion start size minSize).2 = { p with
          mpuConfig := some (B.chip.mpu.allocateRegion start size minSize .readWriteOnly config).2
          mpuRegions := mpuRegions } := by
  unfold ProcessStandard.addMpuRegion
  split
  · exact .inl rfl
  next config hcfg =>
  refine .inr ⟨config, ?_⟩
  rcases B.chip.mpu.allocateRegion start size minSize .readWriteOnly config
    with ⟨_ | -, -⟩
  · exact ⟨p.mpuRegions, hcfg, rfl⟩
  simp only
  split
  · exact ⟨_, hcfg, rfl⟩
  · exact ⟨p.mpuRegions, hcfg, rfl⟩

section

variable (h : p.LayoutInvariant contract)
include h

theorem LayoutInvariant.addMpuRegion (start size minSize : Usize) :
    (p.addMpuRegion start size minSize).2.LayoutInvariant contract := by
  rcases p.addMpuRegion_outcome start size minSize with
    hsame | ⟨config, mpuRegions, hcfg, hframe⟩
  · rw [hsame]
    exact h
  rw [hframe]
  refine h.of_mpuConfig mpuRegions fun config' hconfig' => ⟨_, rfl, ?_⟩
  obtain rfl := Option.some.inj (hcfg.symm.trans hconfig')
  exact contract.allocateRegion_appRegion start size minSize _ config

theorem LayoutInvariant.quiet (hquiet : QuietWork p p') : p'.LayoutInvariant contract := by
  cases hquiet with
  | debug _ | storedState _ | writeAppMemory stores => exact h.of_memoryView rfl rfl
  | state state hrun hstate =>
    exact h.of_memoryView rfl (hstate.trans hrun.symm)
  | setByte addr value =>
    obtain ⟨_, hframe, -⟩ := p.setByte_frame addr value
    rw [hframe]
    exact h.of_memoryView rfl rfl
  | setupMpu => exact h.setupMpu
  | addMpuRegion start size minSize => exact h.addMpuRegion start size minSize
  | brk newBreak => exact h.brk newBreak
  | buildReadwriteProcessBuffer bufStartAddr size =>
    exact h.buildReadwriteProcessBuffer bufStartAddr size
  | buildReadonlyProcessBuffer bufStartAddr size =>
    exact h.buildReadonlyProcessBuffer bufStartAddr size

theorem LayoutInvariant.enqueueTask (task : Task) :
    (p.enqueueTask task).2.LayoutInvariant contract := by
  obtain ⟨_, _, hframe, -⟩ := p.enqueueTask_outcome task
  rw [hframe]
  exact h.of_memoryView rfl rfl

end

theorem newProcessGrant_memoryView (p : ProcessStandard B) (grantNum : Usize) (decl : GrantDecl) :
    (p.newProcessGrant grantNum decl).2 = p ∨ ∃ memory, (p.newProcessGrant grantNum decl).2 =
        { (p.allocateGrant grantNum decl.driverNum decl.grantSize
          decl.grantAlign).2 with memory := memory } := by
  cases hallocated : p.grantIsAllocated grantNum with
  | none => exact .inl (by simp only [newProcessGrant, hallocated])
  | some allocated =>
    cases allocated with
    | true => exact .inl (by simp only [newProcessGrant, hallocated])
    | false =>
      refine .inr ?_
      rcases allocateGrant_outcome decl.driverNum decl.grantSize decl.grantAlign hallocated with
        ⟨config, herror⟩ | ⟨config, -, -, hhigh, hok⟩
      · refine ⟨p.memory, ?_⟩
        simp [newProcessGrant, hallocated, herror]
      · rw [newProcessGrant_of_allocateGrant hallocated hhigh hok, hok]
        exact ⟨_, rfl⟩

section

variable (h : p.LayoutInvariant contract)
include h

theorem LayoutInvariant.newProcessGrant (grantNum : Usize) (decl : GrantDecl) :
    (p.newProcessGrant grantNum decl).2.LayoutInvariant contract := by
  rcases p.newProcessGrant_memoryView grantNum decl with hsame | ⟨_, hnew⟩
  · rw [hsame]
    exact h
  rw [hnew]
  exact (h.allocateGrant grantNum decl.driverNum decl.grantSize
    decl.grantAlign).of_memoryView rfl rfl

theorem LayoutInvariant.foldl_apply (decl : GrantDecl)
    (layout : KernelManagedLayout) (closure : List GrantAction) :
    (closure.foldl (GrantAction.apply decl layout) p).LayoutInvariant contract := by
  induction closure generalizing p with
  | nil => exact h
  | cons action closure ih =>
    refine ih ?_
    cases action with
    | scheduleUpcall subscribeNum r0 r1 r2 =>
      simp only [GrantAction.apply, scheduleUpcall_snd]
      split_ifs
      · exact h.enqueueTask _
      · exact h
    | setData bytes => exact h.of_memoryView rfl rfl
    | allocate size align => exact h.allocateCustomGrant size align

theorem LayoutInvariant.work (hwork : ProcessWork platform drops p p') :
    p'.LayoutInvariant contract := by
  cases hwork with
  | quiet hquiet => exact h.quiet hquiet
  | dropTasks _ _ _ => exact h.of_memoryView rfl rfl
  | enqueueIpc caller kind _ => exact h.enqueueTask _
  | newProcessGrant grantNum => exact h.newProcessGrant grantNum _
  | accessGrant grantNum closure _ haccess =>
    obtain ⟨-, _, -, -, rfl⟩ := accessGrant_ok haccess
    exact h.foldl_apply _ _ closure

theorem LayoutInvariant.swapSaved {kind : SavedKind} {driverNum num : Usize}
    {new old : Usize × Usize} (hswap : p.swapSaved kind driverNum num new = (.ok old, p')) :
    p'.LayoutInvariant contract := by
  rcases p.swapSaved_cases kind driverNum num new with
    ⟨_, herror⟩ | ⟨_, _, _, -, -, -, -, -, hok⟩
  · rw [herror] at hswap
    cases hswap
  rw [hok] at hswap
  cases hswap
  exact h.of_memoryView rfl rfl

theorem LayoutInvariant.clearPending (key : SavedKey) :
    (key.clearPending p).LayoutInvariant contract := by
  unfold SavedKey.clearPending
  split
  · exact h.of_memoryView rfl rfl
  · exact h
  · exact h

end

end ProcessStandard

open ProcessStandard

/-- No kernel step breaks the layout of a process. -/
theorem KernelStep.layout (hstep : KernelStep platform rejects s s')
    (h : s.All (LayoutInvariant contract)) : s'.All (LayoutInvariant contract) := by
  cases hstep with
  | work hp hwork => exact h.setProcess ((h _ _ hp).work hwork)
  | terminate hp completionCode =>
    exact h.setProcess ((h _ _ hp).terminate completionCode)
  | fault hp =>
    refine h.setProcess (((h _ _ hp).terminate none).of_memoryView rfl ?_)
    exact (terminate_isRunning _ none).symm
  | restart hp hstopped =>
    exact h.setProcess (layoutInvariant_resetToYielded (h _ _ hp).placed
      (h _ _ hp).ordered hstopped _)
  | exchange hp _ hswap =>
    exact h.setProcess (((h _ _ hp).swapSaved hswap).clearPending _)
  | refuse _ _ _ | reject _ _ _ _ | handle _ _ _ | switchTo _ _ => exact h
  | functionCall hp _ => exact h.setProcess ((h _ _ hp).of_memoryView rfl rfl)

theorem KernelState.Booted.layout (h : s.Booted)
    (contract : B.chip.mpu.Contract) : s.All (LayoutInvariant contract) := by
  intro index p hp
  obtain ⟨_, _, _, _, hcreate, -⟩ := h.created index p hp
  exact layoutInvariant_create contract hcreate

end TockKernel

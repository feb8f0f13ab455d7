import TockKernel.Word

/-!
# The memory protection unit interface

The `MPU` trait of `kernel/src/platform/mpu.rs`, and the part of its documented
contract that is about the memory of a process: an implementation chooses a
block of memory, records in the configuration which part of it the process may
access, and moves the end of that part on request. Methods that take `&mut
MpuConfig` return the new configuration next to their result.
-/

namespace TockKernel

/-- `usize` and raw pointers of the 32-bit targets. -/
abbrev Usize := BitVec 32

def cmpMax (a b : Usize) : Usize :=
  if b < a then a else b

theorem toNat_cmpMax (a b : Usize) : (cmpMax a b).toNat = max a.toNat b.toNat := by
  unfold cmpMax
  split_ifs with h
  all_goals
    rw [BitVec.lt_def] at h
    omega

inductive Permissions where
  | readWriteExecute
  | readWriteOnly
  | readExecuteOnly
  | readOnly
  | executeOnly
  deriving DecidableEq, Repr

structure Region where
  startAddress : Usize
  size : Usize
  deriving DecidableEq, Repr

structure Mpu where
  MpuConfig : Type
  newConfig : Option MpuConfig
  resetConfig : MpuConfig → MpuConfig
  allocateRegion : (unallocatedMemoryStart unallocatedMemorySize minRegionSize : Usize) →
    Permissions → MpuConfig → Option Region × MpuConfig
  removeMemoryRegion : Region → MpuConfig → Except Unit Unit × MpuConfig
  allocateAppMemoryRegion : (unallocatedMemoryStart unallocatedMemorySize minMemorySize
      initialAppMemorySize initialKernelMemorySize : Usize) →
    Permissions → MpuConfig → Option (Usize × Usize) × MpuConfig
  updateAppMemoryRegion : (appMemoryBreak kernelMemoryBreak : Usize) →
    Permissions → MpuConfig → Except Unit Unit × MpuConfig
  /-- Writes the hardware registers; an implementation may also note in the
  configuration that it did. -/
  configureMpu : MpuConfig → MpuConfig

/-- The block `[blockStart, blockEnd)` chosen for a process and the part
`[start, stop)` of the address space it may access. -/
structure AppRegion where
  blockStart : ℕ
  blockEnd : ℕ
  start : ℕ
  stop : ℕ
  permissions : Permissions
  deriving DecidableEq, Repr

/-- The conditions of `allocate_app_memory_region`: the region covers the bytes
from the start of the block to `appBreak`, does not overlap those from
`kernelBreak` on, and has the requested permissions. -/
structure AppRegion.Separates (region : AppRegion) (appBreak kernelBreak : ℕ)
    (permissions : Permissions) : Prop where
  start_le : region.start ≤ region.blockStart
  covers : appBreak ≤ region.stop
  below_kernel : region.stop ≤ kernelBreak
  permissions_eq : region.permissions = permissions

/-- The documented behaviour with respect to the memory of a process.
`appRegion` reads off a configuration what it records. -/
structure Mpu.Contract (M : Mpu) where
  appRegion : M.MpuConfig → Option AppRegion
  newConfig_appRegion : ∀ config, M.newConfig = some config → appRegion config = none
  resetConfig_appRegion : ∀ config, appRegion (M.resetConfig config) = none
  allocateRegion_appRegion : ∀ start size minSize permissions config,
      appRegion (M.allocateRegion start size minSize permissions config).2 = appRegion config
  removeMemoryRegion_appRegion : ∀ region config,
      appRegion (M.removeMemoryRegion region config).2 = appRegion config
  configureMpu_appRegion : ∀ config, appRegion (M.configureMpu config) = appRegion config
  /-- The block lies in the stretch, has the minimum size, and the region
  separates its first bytes from its last ones. -/
  allocateApp_some : ∀ (start size minSize appSize kernelSize : Usize) permissions config
      (blockStart blockSize : Usize) config', start.toNat + size.toNat < 2 ^ 32 →
      M.allocateAppMemoryRegion start size minSize appSize kernelSize
        permissions config = (some (blockStart, blockSize), config') →
      start.toNat ≤ blockStart.toNat ∧
      blockStart.toNat + blockSize.toNat ≤ start.toNat + size.toNat ∧
      minSize.toNat ≤ blockSize.toNat ∧ kernelSize.toNat ≤ blockSize.toNat ∧
      ∃ region, appRegion config' = some region ∧ region.blockStart = blockStart.toNat ∧
        region.blockEnd = blockStart.toNat + blockSize.toNat ∧
        region.Separates (blockStart.toNat + appSize.toNat)
          (blockStart.toNat + blockSize.toNat - kernelSize.toNat) permissions
  allocateApp_none : ∀ start size minSize appSize kernelSize permissions config config',
      M.allocateAppMemoryRegion start size minSize appSize kernelSize
        permissions config = (none, config') → config' = config
  /-- A successful update keeps the block and separates at the new breaks. -/
  update_ok : ∀ (appBreak kernelBreak : Usize) permissions config config' region,
      appRegion config = some region → region.blockStart ≤ appBreak.toNat →
      appBreak.toNat ≤ kernelBreak.toNat → kernelBreak.toNat ≤ region.blockEnd →
      M.updateAppMemoryRegion appBreak kernelBreak permissions config = (.ok (), config') →
      ∃ region', appRegion config' = some region' ∧ region'.blockStart = region.blockStart ∧
        region'.blockEnd = region.blockEnd ∧
        region'.Separates appBreak.toNat kernelBreak.toNat permissions
  update_error : ∀ appBreak kernelBreak permissions config config',
      M.updateAppMemoryRegion appBreak kernelBreak permissions config = (.error (), config') →
      config' = config

/-! ## An implementation that keeps the contract -/

/-- Configuration of an MPU without alignment rules: the regions as they were
requested. -/
structure UnalignedConfig where
  regions : List (Region × Permissions)
  app : Option AppRegion

/-- The default implementation of the trait (`impl MPU for ()`), made to
remember its regions: blocks are placed at the very start of the stretch and
are as long as requested. -/
def unalignedMpu : Mpu where
  MpuConfig := UnalignedConfig
  newConfig := some ⟨[], none⟩
  resetConfig _ := ⟨[], none⟩
  allocateRegion start size minSize permissions config :=
    if minSize > size then (none, config)
    else (some ⟨start, minSize⟩,
      { config with regions := (⟨start, minSize⟩, permissions) ::
          config.regions })
  removeMemoryRegion region config :=
    (.ok (), { config with
      regions := config.regions.filter fun entry => entry.1 ≠ region })
  allocateAppMemoryRegion start size minSize appSize kernelSize permissions config :=
    let memorySize := max minSize.toNat (appSize.toNat + kernelSize.toNat)
    if memorySize > size.toNat ∨ config.app.isSome then (none, config)
    else (some (start, BitVec.ofNat 32 memorySize), { config with
      app := some {
        blockStart := start.toNat
        blockEnd := start.toNat + memorySize
        start := start.toNat
        stop := start.toNat + appSize.toNat
        permissions := permissions } })
  updateAppMemoryRegion appBreak kernelBreak permissions config :=
    match config.app with
    | none => (.error (), config)
    | some region =>
      if appBreak > kernelBreak then (.error (), config)
      else (.ok (), { config with
        app := some { region with
          start := region.blockStart
          stop := appBreak.toNat
          permissions := permissions } })
  configureMpu config := config

def unalignedMpuContract : unalignedMpu.Contract where
  appRegion config := UnalignedConfig.app config
  newConfig_appRegion := by
    rintro config ⟨⟩
    rfl
  resetConfig_appRegion _ := rfl
  allocateRegion_appRegion start size minSize permissions config := by
    simp only [unalignedMpu]
    split <;> rfl
  removeMemoryRegion_appRegion _ _ := rfl
  configureMpu_appRegion _ := rfl
  allocateApp_some := by
    intro start size minSize appSize kernelSize permissions config blockStart
      blockSize config' hnoWrap hallocate
    simp only [unalignedMpu] at hallocate
    split_ifs at hallocate with hrefused
    · cases hallocate
    cases hallocate
    push Not at hrefused
    have htoNat : (BitVec.ofNat 32 (max minSize.toNat (appSize.toNat + kernelSize.toNat))).toNat =
        max minSize.toNat (appSize.toNat + kernelSize.toNat) :=
      (BitVec.toNat_ofNat _ _).trans (Nat.mod_eq_of_lt (by omega))
    rw [htoNat]
    refine ⟨le_rfl, by omega, by omega, by omega, _, rfl, rfl, rfl, ?_⟩
    exact ⟨le_rfl, le_rfl, by simp only; omega, rfl⟩
  allocateApp_none := by
    intro start size minSize appSize kernelSize permissions config config' hallocate
    simp only [unalignedMpu] at hallocate
    split_ifs at hallocate
    · cases hallocate
      rfl
    · cases hallocate
  update_ok := by
    intro appBreak kernelBreak permissions config config' region hregion hstart hbreaks hend hupdate
    simp only [unalignedMpu] at hupdate
    rw [hregion] at hupdate
    simp only at hupdate
    split_ifs at hupdate with hover
    · cases hupdate
    · cases hupdate
      exact ⟨_, rfl, rfl, rfl, le_rfl, le_rfl, hbreaks, rfl⟩
  update_error := by
    intro appBreak kernelBreak permissions config config' hupdate
    simp only [unalignedMpu] at hupdate
    split at hupdate
    · cases hupdate
      rfl
    split_ifs at hupdate
    · cases hupdate
      rfl
    · cases hupdate

end TockKernel

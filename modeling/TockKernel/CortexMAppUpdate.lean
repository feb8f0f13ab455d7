import TockKernel.CortexMAppMemory

/-!
# Moving the break of a process on the Cortex-M MPU

`update_app_memory_region` reads the extent of region 0 back from the
configuration, so what it needs to know about the block is an invariant of the
configuration: established by `allocate_app_memory_region`, kept by every
update.
-/

namespace TockKernel.CortexM

open Arithmetic

variable {g : Geometry}

/-- Region 0 stands for an aligned power of two that is the block or its first
half. -/
structure HoldsBlock (config : CortexMConfig g) (start size : ℕ) : Prop where
  exists_exponent : ∃ k, 8 ≤ k ∧ k ≤ 31 ∧ 2 ^ k ∣ start ∧ (size = 2 ^ k ∨ size = 2 * 2 ^ k) ∧
    (config.regions g.region0).location = some (start, 2 ^ k)

/-! ## The block is established -/

variable {profile : Profile} {permissions : Permissions} {start : ℕ}
  {config : CortexMConfig g} {appMemoryBreak : ℕ}

theorem location_of_new {logicalStart logicalSize regionStart regionSize regionNum : ℕ}
    {subregions : Option (ℕ × ℕ)} {r : CortexMRegion}
    (h : CortexMRegion.new profile logicalStart logicalSize regionStart regionSize regionNum
      subregions permissions = .ok r) : r.location = some (logicalStart, logicalSize) := by
  obtain ⟨_, -, h⟩ := of_bind_ok h
  cases subregions with
  | none =>
    cases h
    rfl
  | some bounds =>
    obtain ⟨_, -, h⟩ := of_bind_ok h
    cases h
    rfl

theorem location_of_appRegions {size num : ℕ} {regions : CortexMRegion × CortexMRegion}
    (h : appRegions profile start size num permissions = .ok regions) :
    regions.1.location = some (start, size) := by
  obtain ⟨_, -, h⟩ := of_bind_ok h
  obtain ⟨_, hr0, h⟩ := of_bind_ok h
  split at h
  · cases h
    exact location_of_new hr0
  obtain ⟨_, -, h⟩ := of_bind_ok h
  obtain ⟨_, -, h⟩ := of_bind_ok h
  cases h
  exact location_of_new hr0

theorem region0_setAppRegions (config : CortexMConfig g) (r0 r1 : CortexMRegion) :
    (config.setAppRegions r0 r1).regions g.region0 = r0 := by
  have hne : g.region0 ≠ g.region1 := by
    simp [Geometry.region0, Geometry.region1]
  simp [CortexMConfig.setAppRegions, CortexMConfig.setRegion, Function.update_of_ne hne]

theorem two_pow_dvd_alignUp_mod (x : ℕ) {k : ℕ} (hk : k ≤ 32) :
    2 ^ k ∣ alignUp x (2 ^ k) % 2 ^ 32 :=
  (Nat.dvd_mod_iff (Nat.pow_dvd_pow 2 hk)).mpr (dvd_alignUp (Nat.two_pow_pos k))

theorem planAppMemory_shape {app kernel e : ℕ} {plan : AppMemoryPlan} (hstart : start < 2 ^ 32)
    (he : 9 ≤ e) (he31 : e ≤ 31) (h : planAppMemory .release start app kernel (2 ^ e) = .ok plan) :
    ∃ k, 8 ≤ k ∧ k ≤ 31 ∧ 2 ^ k ∣ plan.regionStart ∧
      plan.regionSize = 2 ^ k ∧ (2 ^ e = 2 ^ k ∨ 2 ^ e = 2 * 2 ^ k) := by
  have hdouble : 2 ^ e = 2 * 2 ^ (e - 1) := by
    rw [← Nat.pow_succ', Nat.succ_eq_add_one, Nat.sub_add_cancel (by omega)]
  have hhalf : 2 ^ e / 2 = 2 ^ (e - 1) := by omega
  have hlt : 2 ^ e < 2 ^ 32 := Nat.pow_lt_pow_right Nat.one_lt_two (by omega)
  simp only [planAppMemory, hhalf, roundUp_release (Nat.two_pow_pos (e - 1)) hstart, ok_bind] at h
  obtain ⟨_, -, h⟩ := of_bind_ok h
  obtain ⟨_, -, h⟩ := of_bind_ok h
  obtain ⟨enabledEnd, -, h⟩ := of_bind_ok h
  obtain ⟨_, -, h⟩ := of_bind_ok h
  obtain ⟨_, -, h⟩ := of_bind_ok h
  split at h
  · rw [mul_of_lt _ (by omega), ok_bind, Nat.mul_comm, ← hdouble,
      roundUp_release (Nat.two_pow_pos e) (Nat.mod_lt _ (Nat.two_pow_pos 32)), ok_bind] at h
    obtain ⟨_, -, h⟩ := of_bind_ok h
    cases h
    exact ⟨e, by omega, he31, two_pow_dvd_alignUp_mod _ (by omega), rfl, .inl rfl⟩
  · cases h
    exact ⟨e - 1, by omega, by omega, two_pow_dvd_alignUp_mod _ (by omega), rfl, .inr hdouble⟩

variable {size : ℕ}

theorem holdsBlock_of_allocate {unallocatedStart unallocatedSize minSize app kernel : ℕ}
    {config' : CortexMConfig g} (hstart : unallocatedStart < 2 ^ 32) (hmin : minSize < 2 ^ 32)
    (h : allocateAppMemoryRegion profile unallocatedStart unallocatedSize minSize app kernel
      permissions config = .ok (some (start, size), config')) : HoldsBlock config' start size := by
  have hrelease : allocateAppMemoryRegion .release unallocatedStart
      unallocatedSize minSize app kernel permissions config =
        .ok (some (start, size), config') := by
    cases profile with
    | dev => exact allocateAppMemoryRegion_refines _ h
    | release => exact h
  obtain ⟨found, -, h⟩ := of_bind_ok hrelease
  cases found with
  | true => cases h
  | false =>
    simp only [Bool.false_eq_true, memorySizePo2_release app kernel hmin, ok_bind] at h
    obtain ⟨_, hplan, h⟩ := of_bind_ok h
    obtain ⟨_, -, h⟩ := of_bind_ok h
    obtain ⟨_, -, h⟩ := of_bind_ok h
    split at h
    · cases h
    obtain ⟨_, hregions, h⟩ := of_bind_ok h
    cases h
    obtain ⟨k, hk, hk31, haligned, hsize, hblock⟩ := planAppMemory_shape
      hstart (nine_le_blockExponentFor _) (blockExponentFor_le _) hplan
    refine ⟨k, hk, hk31, haligned, hblock, ?_⟩
    rw [region0_setAppRegions, location_of_appRegions hregions, hsize]

/-! ## The block is kept -/

structure UpdateCall where
  appMemoryBreak : ℕ
  kernelMemoryBreak : ℕ
  permissions : Permissions

def runUpdates (profile : Profile) (updates : List UpdateCall)
    (config : CortexMConfig g) : Except Trap (CortexMConfig g) :=
  updates.foldlM (fun config update => do
    let result ← updateAppMemoryRegion profile update.appMemoryBreak
      update.kernelMemoryBreak update.permissions config
    return result.2) config

variable {outcome : Except Unit Unit × CortexMConfig g}

theorem updateAppMemoryRegion_cases {kernelMemoryBreak : ℕ}
    (h : updateAppMemoryRegion profile appMemoryBreak kernelMemoryBreak permissions config =
      .ok outcome) :
    outcome.2 = config ∨ ∃ start size num regions,
        (config.regions g.region0).location = some (start, size) ∧
        appRegions profile start size num permissions = .ok regions ∧
        outcome.2 = config.setAppRegions regions.1 regions.2 := by
  unfold updateAppMemoryRegion at h
  cases hloc : (config.regions g.region0).location with
  | none =>
    simp only [hloc] at h
    cases h
    exact .inl rfl
  | some location =>
    obtain ⟨start, size⟩ := location
    simp only [hloc] at h
    split at h
    · cases h
      exact .inl rfl
    obtain ⟨_, -, h⟩ := of_bind_ok h
    obtain ⟨_, -, h⟩ := of_bind_ok h
    obtain ⟨_, -, h⟩ := of_bind_ok h
    obtain ⟨num, -, h⟩ := of_bind_ok h
    obtain ⟨_, -, h⟩ := of_bind_ok h
    obtain ⟨_, -, h⟩ := of_bind_ok h
    split at h
    · cases h
      exact .inl rfl
    obtain ⟨regions, hregions, h⟩ := of_bind_ok h
    cases h
    exact .inr ⟨start, size, num, regions, rfl, hregions, rfl⟩

theorem HoldsBlock.update {kernelMemoryBreak : ℕ} (hblock : HoldsBlock config start size)
    (h : updateAppMemoryRegion profile appMemoryBreak kernelMemoryBreak permissions config =
      .ok outcome) : HoldsBlock outcome.2 start size := by
  obtain ⟨k, hk, hk31, haligned, hsize, hloc⟩ := hblock
  refine ⟨k, hk, hk31, haligned, hsize, ?_⟩
  obtain hsame | ⟨_, _, _, _, hlocation', hregions, hset⟩ := updateAppMemoryRegion_cases h
  · rwa [hsame]
  · rw [hset, region0_setAppRegions, location_of_appRegions hregions, ← hlocation', hloc]

theorem HoldsBlock.runUpdates (updates : List UpdateCall) {config' : CortexMConfig g}
    (hblock : HoldsBlock config start size) (h : runUpdates profile updates config = .ok config') :
    HoldsBlock config' start size := by
  induction updates generalizing config with
  | nil =>
    cases h
    exact hblock
  | cons update rest ih =>
    obtain ⟨_, hnext, h⟩ := of_bind_ok h
    obtain ⟨_, hres, hreturn⟩ := of_bind_ok hnext
    cases hreturn
    exact ih (hblock.update hres) h

/-! ## What an update does -/

theorem enabledBytes_bounds {appSize u blocks : ℕ} (hu : 0 < u)
    (hpos : 0 < appSize) (hle : appSize ≤ blocks * u) :
    1 ≤ (appSize + u - 1) / u ∧ (appSize + u - 1) / u ≤ blocks ∧
      appSize ≤ (appSize + u - 1) / u * u := by
  have hlower : 1 ≤ (appSize + u - 1) / u := by
    rw [Nat.le_div_iff_mul_le hu]
    omega
  have hupper : (appSize + u - 1) / u < blocks + 1 := by
    rw [Nat.div_lt_iff_lt_mul hu, Nat.add_mul]
    omega
  have hcover := Nat.lt_mul_div_succ (appSize + u - 1) hu
  rw [Nat.mul_comm, Nat.add_mul] at hcover
  exact ⟨hlower, by omega, by omega⟩

/-- The result of an update leaves nothing of the process's memory
inaccessible and nothing of the kernel's accessible. -/
def UpdateIsolates (start appMemoryBreak kernelMemoryBreak : ℕ) (config : CortexMConfig g)
    (result : Except Unit Unit × CortexMConfig g) : Prop :=
  match result with
  | (.ok (), config') =>
    (∀ address, start ≤ address → address < appMemoryBreak → config'.AppAccessible address) ∧
    ∀ address, config'.AppAccessible address → address < kernelMemoryBreak
  | (.error (), config') => config' = config

theorem exists_subregionCount {size k : ℕ} (hk : 3 ≤ k) (hk31 : k ≤ 31)
    (hsize : size = 2 ^ k ∨ size = 2 * 2 ^ k) (hend : start + size < 2 ^ 32) :
    ∃ count, count ≤ 16 ∧ size = count * 2 ^ (k - 3) ∧ size + 2 ^ (k - 3) < 2 ^ 32 := by
  have height : 2 ^ k = 8 * 2 ^ (k - 3) := by
    rw [show (8 : ℕ) = 2 ^ 3 by rfl, ← Nat.pow_add, Nat.add_sub_cancel' hk]
  rcases hsize with hsize | hsize
  · have hle : 2 ^ k ≤ 2 ^ 31 := Nat.pow_le_pow_right Nat.two_pos hk31
    exact ⟨8, by decide, by omega, by omega⟩
  have hlt : k + 1 < 32 := by
    rw [← Nat.pow_lt_pow_iff_right Nat.one_lt_two]
    omega
  have hle : 2 ^ k ≤ 2 ^ 30 := Nat.pow_le_pow_right Nat.two_pos (by omega)
  exact ⟨16, le_rfl, by omega, by omega⟩

theorem HoldsBlock.update_isolates
    (hblock : HoldsBlock config start size) (hend : start + size < 2 ^ 32)
    (hstart : start < appMemoryBreak) (hstop : appMemoryBreak ≤ start + size)
    (kernelMemoryBreak : ℕ) (profile : Profile) (permissions : Permissions) :
    ∃ result, updateAppMemoryRegion profile appMemoryBreak kernelMemoryBreak
        permissions config = .ok result ∧
      UpdateIsolates start appMemoryBreak kernelMemoryBreak config result := by
  obtain ⟨k, hk, hk31, haligned, hsize, hloc⟩ := hblock
  simp only [updateAppMemoryRegion, hloc]
  by_cases hbreak : kernelMemoryBreak < appMemoryBreak
  · exact ⟨(.error (), config), if_pos hbreak, rfl⟩
  obtain ⟨count, hcount, hblocks, hroom⟩ :=
    exists_subregionCount (show 3 ≤ k by omega) hk31 hsize hend
  have hsub : 2 ^ k / 8 = 2 ^ (k - 3) := Nat.pow_div (show 3 ≤ k by omega) Nat.two_pos
  have hu : 0 < 2 ^ (k - 3) := Nat.two_pow_pos _
  obtain ⟨hnum, hnumle, hcover⟩ := enabledBytes_bounds hu (show 0 < appMemoryBreak - start by omega)
    (show appMemoryBreak - start ≤ count * 2 ^ (k - 3) by omega)
  have hbytes : (appMemoryBreak - start + 2 ^ (k - 3) - 1) / 2 ^ (k - 3) * 2 ^ (k - 3) ≤ size := by
    rw [hblocks]
    exact Nat.mul_le_mul_right _ hnumle
  rw [if_neg hbreak, sub_of_le _ hstart.le, ok_bind, hsub,
    add_of_lt _ (by omega), ok_bind, sub_of_le _ (by omega), ok_bind, div_of_pos hu, ok_bind]
  generalize (appMemoryBreak - start + 2 ^ (k - 3) - 1) / 2 ^ (k - 3) = num
    at hnum hnumle hcover hbytes ⊢
  rw [Nat.mul_comm] at hbytes
  rw [mul_of_lt _ (by omega), ok_bind, add_of_lt _ (by omega), ok_bind, Nat.mul_comm (2 ^ (k - 3))]
  by_cases hover : kernelMemoryBreak < start + num * 2 ^ (k - 3)
  · exact ⟨(.error (), config), if_pos hover, rfl⟩
  obtain ⟨_, _, hregions, -, haccessible⟩ := appRegions_spec profile
    permissions start k num (by omega) (by omega) (by omega) haligned hnum
    (hnumle.trans hcount) (fun _ => by omega)
  rw [if_neg hover, hregions]
  refine ⟨_, rfl, ?_, ?_⟩
  · intro address hle hlt
    rw [appAccessible_setAppRegions, haccessible]
    omega
  · intro address hacc
    rw [appAccessible_setAppRegions, haccessible] at hacc
    omega

/-- After any updates, one that moves the break above the start of a block
inside the address space, or is turned down, does no arithmetic beyond 32 bits
and keeps the memory of process and kernel apart. -/
theorem update_app_memory_isolates (profile : Profile)
    (unallocatedStart unallocatedSize minSize app kernel : ℕ) (permissions : Permissions)
    (config0 : CortexMConfig g) {config1 config2 : CortexMConfig g} {start size : ℕ}
    (hunallocated : unallocatedStart < 2 ^ 32) (hmin : minSize < 2 ^ 32)
    (hallocate : allocateAppMemoryRegion profile unallocatedStart unallocatedSize minSize app
      kernel permissions config0 = .ok (some (start, size), config1))
    (updates : List UpdateCall) (hupdates : runUpdates profile updates config1 = .ok config2)
    (hend : start + size < 2 ^ 32) (appMemoryBreak kernelMemoryBreak : ℕ)
    (hstop : appMemoryBreak ≤ start + size)
    (hbreaks : start < appMemoryBreak ∨ kernelMemoryBreak < appMemoryBreak) (profile' : Profile)
    (permissions' : Permissions) :
    ∃ result, updateAppMemoryRegion profile' appMemoryBreak kernelMemoryBreak
        permissions' config2 = .ok result ∧
      UpdateIsolates start appMemoryBreak kernelMemoryBreak config2 result := by
  have hblock : HoldsBlock config2 start size :=
    (holdsBlock_of_allocate hunallocated hmin hallocate).runUpdates updates hupdates
  rcases hbreaks with hstart | hover
  · exact hblock.update_isolates hend hstart hstop kernelMemoryBreak profile' permissions'
  obtain ⟨k, -, -, -, -, hloc⟩ := hblock
  refine ⟨(.error (), config2), ?_, rfl⟩
  simp only [updateAppMemoryRegion, hloc]
  exact if_pos hover

theorem update_app_memory_isolates_small : ∃ config1 config2 : CortexMConfig cortexM4,
      allocateAppMemoryRegion .dev 0x20000000 0x10000 4096 2000 1000
        .readWriteOnly (freshConfig cortexM4 1) = .ok (some (0x20000000, 4096), config1) ∧
      runUpdates .dev [⟨0x20000900, 0x20000C18, .readWriteOnly⟩] config1 = .ok config2 ∧
      ∃ result, updateAppMemoryRegion .dev 0x20000B00 0x20000C18
          .readWriteOnly config2 = .ok result ∧
        UpdateIsolates 0x20000000 0x20000B00 0x20000C18 config2 result :=
  ⟨_, _, rfl, rfl, update_app_memory_isolates .dev 0x20000000 0x10000 4096
    2000 1000 .readWriteOnly (freshConfig cortexM4 1) (by decide) (by decide)
    rfl [⟨0x20000900, 0x20000C18, .readWriteOnly⟩] rfl (by decide)
    0x20000B00 0x20000C18 (by decide) (by decide) .dev .readWriteOnly⟩

/-- Moving the break to the start of the block, which `brk` allows, asks for no
subregion, and the index of the last one is computed by subtracting one from
zero. -/
theorem update_app_memory_underflows : ∃ config1 : CortexMConfig cortexM4,
      allocateAppMemoryRegion .dev 0x20000000 0x10000 4096 2000 1000
        .readWriteOnly (freshConfig cortexM4 1) = .ok (some (0x20000000, 4096), config1) ∧
      updateAppMemoryRegion .dev 0x20000000 0x20000C18 .readWriteOnly config1 = .error .overflow :=
  ⟨_, rfl, rfl⟩

end TockKernel.CortexM

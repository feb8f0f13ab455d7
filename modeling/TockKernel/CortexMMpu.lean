import TockKernel.CortexMRegion
import Mathlib.Data.List.FinRange

/-!
# The Cortex-M MPU driver

`impl mpu::MPU for MPU<NUM_REGIONS, MIN_REGION_SIZE>`. Addresses and sizes are
naturals below `2 ^ 32`; a function that stops because of its arithmetic returns
a `Trap`. Regions 0 and 1 hold the memory of the process, the others whatever
`allocate_region` is asked for.
-/

namespace TockKernel.CortexM

open Arithmetic

/-- The constants of an MPU: those of the Cortex-M0+, M3, M4 and M7. -/
structure Geometry where
  numRegions : ℕ
  minRegionSize : ℕ
  two_le_numRegions : 2 ≤ numRegions
  numRegions_le : numRegions ≤ 16
  minRegionSize_eq : minRegionSize = 32 ∨ minRegionSize = 256

def cortexM4 : Geometry where
  numRegions := 8
  minRegionSize := 32
  two_le_numRegions := by decide
  numRegions_le := by decide
  minRegionSize_eq := by decide

def appMemoryRegionMaxNum : ℕ := 1

structure CortexMConfig (g : Geometry) where
  id : ℕ
  regions : Fin g.numRegions → CortexMRegion
  isDirty : Bool

variable {g : Geometry}

def Geometry.region0 (g : Geometry) : Fin g.numRegions :=
  ⟨0, by have := g.two_le_numRegions; omega⟩

def Geometry.region1 (g : Geometry) : Fin g.numRegions :=
  ⟨1, g.two_le_numRegions⟩

namespace CortexMConfig

def unusedRegionNumber (config : CortexMConfig g) : Option (Fin g.numRegions) :=
  (List.finRange g.numRegions).find? fun number =>
    decide (appMemoryRegionMaxNum < number.val) && (config.regions number).location.isNone

def overlapsAny (profile : Profile) (config : CortexMConfig g)
    (start size : ℕ) : Except Trap Bool :=
  ((List.finRange g.numRegions).map config.regions).anyM
    fun region => region.overlaps profile start size

def setRegion (config : CortexMConfig g) (number : Fin g.numRegions)
    (region : CortexMRegion) : CortexMConfig g :=
  { config with
    regions := Function.update config.regions number region
    isDirty := true }

end CortexMConfig

variable (config : CortexMConfig g)

def resetConfig : CortexMConfig g :=
  { config with regions := fun i => .empty i, isDirty := true }

def freshConfig (g : Geometry) (id : ℕ) : CortexMConfig g :=
  resetConfig ⟨id, fun _ => .empty 0, true⟩

def newConfig (g : Geometry) (configCount : ℕ) : Option (CortexMConfig g × ℕ) :=
  if configCount + 1 < 2 ^ 32 then
    some (freshConfig g configCount, configCount + 1)
  else none

/-! ## Regions on request -/

/-- The memory a region stands for and the hardware region that covers it. -/
structure RegionPlan where
  start : ℕ
  size : ℕ
  regionStart : ℕ
  regionSize : ℕ
  subregions : Option (ℕ × ℕ)
deriving DecidableEq, Repr

variable (profile : Profile)

/-- The largest power of two that divides `start`, or an eighth of the region
from address zero. -/
def subregionSizeFor (start size : ℕ) : Except Trap ℕ := do
  let tz := Math.trailingZeros start
  if tz < 32 then
    return 2 ^ tz
  else
    let ceil ← Math.closestPowerOfTwo profile size
    return (if ceil < 256 then 256 else ceil) / 8

/-- The size is rounded up to a power of two and the start moved up to a
multiple of it. -/
def shiftUp (start size : ℕ) : Except Trap RegionPlan := do
  let size ← Math.closestPowerOfTwo profile size
  let excess ← rem start size
  let gap ← sub 32 profile size excess
  let start ← add 32 profile start gap
  return ⟨start, size, start, size, none⟩

def coverUnaligned (start size : ℕ) : Except Trap RegionPlan := do
  let subregionSize ← subregionSizeFor profile start size
  let underlyingRegionSize ← mul 32 profile subregionSize 8
  let excess ← rem start underlyingRegionSize
  let underlyingRegionStart ← sub 32 profile start excess
  let size ← roundUp 32 profile size subregionSize
  let stop ← add 32 profile start size
  let underlyingRegionEnd ← add 32 profile underlyingRegionStart underlyingRegionSize
  if 32 ≤ subregionSize ∧ stop ≤ underlyingRegionEnd then
    let offset ← sub 32 profile start underlyingRegionStart
    let minSubregion ← div offset subregionSize
    let count ← div size subregionSize
    let next ← add 32 profile minSubregion count
    let maxSubregion ← sub 32 profile next 1
    return ⟨start, size, underlyingRegionStart, underlyingRegionSize,
      some (minSubregion, maxSubregion)⟩
  else
    shiftUp profile start size

def planRegion (g : Geometry) (profile : Profile)
    (unallocatedMemoryStart minRegionSize : ℕ) : Except Trap RegionPlan := do
  let start ← roundUp 32 profile unallocatedMemoryStart g.minRegionSize
  let size := if minRegionSize < g.minRegionSize then g.minRegionSize
    else minRegionSize
  let excess ← rem start size
  if 1 < Math.countOnes size ∨ excess ≠ 0 then
    coverUnaligned profile start size
  else
    return ⟨start, size, start, size, none⟩

def allocateRegion (unallocatedMemoryStart unallocatedMemorySize minRegionSize : ℕ)
    (permissions : Permissions) (config : CortexMConfig g) :
    Except Trap (Option (ℕ × ℕ) × CortexMConfig g) := do
  if ← config.overlapsAny profile unallocatedMemoryStart unallocatedMemorySize then
    return (none, config)
  match config.unusedRegionNumber with
  | none => return (none, config)
  | some regionNum =>
    let plan ← planRegion g profile unallocatedMemoryStart minRegionSize
    let stop ← add 32 profile plan.start plan.size
    let unallocatedMemoryEnd ← add 32 profile unallocatedMemoryStart unallocatedMemorySize
    if unallocatedMemoryEnd < stop then
      return (none, config)
    else
      let region ← CortexMRegion.new profile plan.start plan.size
        plan.regionStart plan.regionSize regionNum plan.subregions
        permissions
      return (some (plan.start, plan.size), config.setRegion regionNum region)

def removeMemoryRegion (region : ℕ × ℕ) (config : CortexMConfig g) :
    Except Unit Unit × CortexMConfig g :=
  match (List.finRange g.numRegions).find? fun idx =>
      decide ((config.regions idx).location = some region) with
  | none => (.error (), config)
  | some idx =>
    if idx.val ≤ appMemoryRegionMaxNum then
      (.error (), config)
    else
      (.ok (), config.setRegion idx (.empty idx))

/-! ## The memory of the process -/

/-- Regions 0 and 1 with the first `numEnabledSubregions` of their sixteen
subregions enabled. -/
def appRegions (regionStart regionSize numEnabledSubregions : ℕ) (permissions : Permissions) :
    Except Trap (CortexMRegion × CortexMRegion) := do
  let numEnabledSubregions0 := min numEnabledSubregions 8
  let numEnabledSubregions1 := numEnabledSubregions - 8
  let maxSubregion0 ← sub 32 profile numEnabledSubregions0 1
  let region0 ← CortexMRegion.new profile regionStart regionSize regionStart
    regionSize 0 (some (0, maxSubregion0)) permissions
  if numEnabledSubregions1 = 0 then
    return (region0, .empty 1)
  else
    let regionStart1 ← add 32 profile regionStart regionSize
    let region1 ← CortexMRegion.new profile regionStart1 regionSize
      regionStart1 regionSize 1 (some (0, numEnabledSubregions1 - 1))
      permissions
    return (region0, region1)

def CortexMConfig.setAppRegions (region0 region1 : CortexMRegion) : CortexMConfig g :=
  (config.setRegion g.region0 region0).setRegion g.region1 region1

def memorySizePo2 (minMemorySize initialAppMemorySize initialKernelMemorySize : ℕ) :
    Except Trap (Option ℕ) := do
  let needed ← add 32 profile initialAppMemorySize initialKernelMemorySize
  let po2 ← Math.closestPowerOfTwo profile (max minMemorySize needed)
  let exponent := Math.logBaseTwo po2
  if exponent < 9 then
    return some 512
  else if 32 < exponent then
    return none
  else
    return some po2

structure AppMemoryPlan where
  regionStart : ℕ
  regionSize : ℕ
  numEnabledSubregions : ℕ
deriving DecidableEq, Repr

def initialSubregions (initialAppMemorySize regionSize : ℕ) : Except Trap ℕ := do
  let eightfold ← mul 32 profile initialAppMemorySize 8
  let whole ← div eightfold regionSize
  add 32 profile whole 1

def planAppMemory
    (unallocatedMemoryStart initialAppMemorySize initialKernelMemorySize
      memorySizePo2 : ℕ) : Except Trap AppMemoryPlan := do
  let regionSize := memorySizePo2 / 2
  let regionStart ← roundUp 32 profile unallocatedMemoryStart regionSize
  let numEnabledSubregions ← initialSubregions profile initialAppMemorySize regionSize
  let subregionSize := regionSize / 8
  let enabledBytes ← mul 32 profile numEnabledSubregions subregionSize
  let subregionsEnabledEnd ← add 32 profile regionStart enabledBytes
  let blockEnd ← add 32 profile regionStart memorySizePo2
  let kernelMemoryBreak ← sub 32 profile blockEnd initialKernelMemorySize
  if kernelMemoryBreak < subregionsEnabledEnd then
    -- The region grows, the block that is handed out does not.
    let regionSize ← mul 32 profile regionSize 2
    let regionStart ← roundUp 32 profile regionStart regionSize
    let numEnabledSubregions ← initialSubregions profile initialAppMemorySize regionSize
    return ⟨regionStart, regionSize, numEnabledSubregions⟩
  else
    return ⟨regionStart, regionSize, numEnabledSubregions⟩

def allocateAppMemoryRegion
    (unallocatedMemoryStart unallocatedMemorySize minMemorySize
      initialAppMemorySize initialKernelMemorySize : ℕ)
    (permissions : Permissions) (config : CortexMConfig g) :
    Except Trap (Option (ℕ × ℕ) × CortexMConfig g) := do
  if ← config.overlapsAny profile unallocatedMemoryStart unallocatedMemorySize then
    return (none, config)
  match ← memorySizePo2 profile minMemorySize initialAppMemorySize initialKernelMemorySize with
  | none => return (none, config)
  | some po2 =>
    let plan ← planAppMemory profile unallocatedMemoryStart
      initialAppMemorySize initialKernelMemorySize po2
    let blockEnd ← add 32 profile plan.regionStart po2
    let unallocatedMemoryEnd ← add 32 profile unallocatedMemoryStart unallocatedMemorySize
    if unallocatedMemoryEnd < blockEnd then
      return (none, config)
    else
      let regions ← appRegions profile plan.regionStart plan.regionSize
        plan.numEnabledSubregions permissions
      return (some (plan.regionStart, po2), config.setAppRegions regions.1 regions.2)

def updateAppMemoryRegion
    (appMemoryBreak kernelMemoryBreak : ℕ) (permissions : Permissions) (config : CortexMConfig g) :
    Except Trap (Except Unit Unit × CortexMConfig g) :=
  match (config.regions g.region0).location with
  | none => return (.error (), config)
  | some (regionStart, regionSize) => do
      if kernelMemoryBreak < appMemoryBreak then
        return (.error (), config)
      else
        let appMemorySize ← sub 32 profile appMemoryBreak regionStart
        let subregionSize := regionSize / 8
        let padded ← add 32 profile appMemorySize subregionSize
        let rounded ← sub 32 profile padded 1
        let numEnabledSubregions ← div rounded subregionSize
        let enabledBytes ← mul 32 profile subregionSize numEnabledSubregions
        let subregionsEnabledEnd ← add 32 profile regionStart enabledBytes
        if kernelMemoryBreak < subregionsEnabledEnd then
          return (.error (), config)
        else
          let regions ← appRegions profile regionStart regionSize numEnabledSubregions permissions
          return (.ok (), config.setAppRegions regions.1 regions.2)

def CortexMConfig.AppAccessible (address : ℕ) : Prop :=
  (config.regions g.region0).Accessible address ∨ (config.regions g.region1).Accessible address

instance (config : CortexMConfig g) (address : ℕ) : Decidable (config.AppAccessible address) :=
  inferInstanceAs (Decidable (_ ∨ _))

end TockKernel.CortexM

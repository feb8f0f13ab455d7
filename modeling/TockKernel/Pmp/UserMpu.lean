import TockKernel.Arithmetic
import TockKernel.Pmp.Registers
import Mathlib.Data.List.FinRange

/-!
# The user MPU over a PMP

`PMPUserMPU` implements the kernel's `MPU` trait with the regions of a
`TORUserPMP`. Addresses and sizes are naturals below `2 ^ 32`; a function that
stops because of its arithmetic returns a `Trap`. One slot of the configuration
is noted as the one that holds the memory of the process.
-/

namespace TockKernel.Pmp

open Arithmetic
open TORUserPMPCFG (off)

structure PMPUserMPUConfig (maxRegions : ℕ) where
  id : ℕ
  isDirty : Bool
  regions : Fin maxRegions → PmpRegion
  appMemoryRegion : Option (Fin maxRegions)

variable {maxRegions : ℕ} (profile : Profile)

/-- `region_overlaps`, on half-open ranges of which neither is empty. -/
def regionOverlaps (region : PmpRegion) (otherStart otherSize : ℕ) : Except Trap Bool := do
  let otherEnd ← add 32 profile otherStart otherSize
  return decide (region.start < region.stop ∧ otherStart < otherEnd ∧
    ((region.start ≤ otherStart ∧ otherStart < region.stop) ∨
      (region.start ≤ otherEnd - 1 ∧ otherEnd - 1 < region.stop) ∨
      (otherStart ≤ region.start ∧ region.start < otherEnd) ∨
      (otherStart ≤ region.stop - 1 ∧ region.stop - 1 < otherEnd)))

namespace PMPUserMPUConfig

variable (config : PMPUserMPUConfig maxRegions)

def freeRegion : Option (Fin maxRegions) :=
  (List.finRange maxRegions).find? fun i => decide ((config.regions i).cfg = off)

def overlapsAny (profile : Profile) (start size : ℕ) : Except Trap Bool :=
  (List.finRange maxRegions).anyM fun i =>
    if (config.regions i).cfg = off then return false
    else regionOverlaps profile (config.regions i) start size

def setRegion (i : Fin maxRegions) (region : PmpRegion) : PMPUserMPUConfig maxRegions :=
  { config with regions := Function.update config.regions i region
                isDirty := true }

end PMPUserMPUConfig

def offRegion : PmpRegion := ⟨off, 0, 0⟩

def newConfig (maxRegions configCount : ℕ) : Option (PMPUserMPUConfig maxRegions × ℕ) :=
  if configCount + 1 < 2 ^ 32 then
    some (⟨configCount, true, fun _ => offRegion, none⟩, configCount + 1)
  else none

def resetConfig (config : PMPUserMPUConfig maxRegions) : PMPUserMPUConfig maxRegions :=
  { config with regions := fun _ => offRegion
                appMemoryRegion := none
                isDirty := true }

def writeable : Permissions → Bool
  | .readWriteExecute => true
  | .readWriteOnly => true
  | .readExecuteOnly => false
  | .readOnly => false
  | .executeOnly => false

def regionSize (requested : ℕ) : Except Trap ℕ := do
  let size ← roundUp 32 profile requested 4
  return if size < 4 then 4 else size

/-- A region past the end of the stretch is refused, unless it is not writeable
and ends within the next three bytes. -/
def exceeds (permissions : Permissions) (stop unallocatedMemoryEnd : ℕ) : Except Trap Bool :=
  if unallocatedMemoryEnd < stop then
    if writeable permissions then return true
    else do
      let extended ← add 32 profile unallocatedMemoryEnd 3
      return decide (extended < stop)
  else return false

def allocateRegion (unallocatedMemoryStart unallocatedMemorySize minRegionSize : ℕ)
    (permissions : Permissions) (config : PMPUserMPUConfig maxRegions) :
    Except Trap (Option (ℕ × ℕ) × PMPUserMPUConfig maxRegions) :=
  match config.freeRegion with
  | none => return (none, config)
  | some regionNum => do
      let start ← roundUp 32 profile unallocatedMemoryStart 4
      let size ← regionSize profile minRegionSize
      let stop ← add 32 profile start size
      let unallocatedMemoryEnd ← add 32 profile unallocatedMemoryStart unallocatedMemorySize
      if ← exceeds profile permissions stop unallocatedMemoryEnd then
        return (none, config)
      else if ← config.overlapsAny profile start size then
        return (none, config)
      else
        return (some (start, size),
          config.setRegion regionNum ⟨.ofPermissions permissions, start, stop⟩)

def isRegion (start size : ℕ) (region : PmpRegion) : Except Trap Bool :=
  if region.cfg ≠ off ∧ region.start = start then do
    let stop ← add 32 profile start size
    return decide (region.stop = stop)
  else return false

def removeMemoryRegion (start size : ℕ) (config : PMPUserMPUConfig maxRegions) :
    Except Trap (Except Unit Unit × PMPUserMPUConfig maxRegions) := do
  match ← (List.finRange maxRegions).findM? fun i =>
      isRegion profile start size (config.regions i) with
  | none => return (.error (), config)
  | some index =>
    return (.ok (), config.setRegion index { config.regions index with cfg := off })

def allocateAppMemoryRegion
    (unallocatedMemoryStart unallocatedMemorySize minMemorySize
      initialAppMemorySize initialKernelMemorySize : ℕ)
    (permissions : Permissions) (config : PMPUserMPUConfig maxRegions) :
    Except Trap (Option (ℕ × ℕ) × PMPUserMPUConfig maxRegions) :=
  if config.appMemoryRegion.isSome then return (none, config)
  else
    match config.freeRegion with
    | none => return (none, config)
    | some regionNum => do
        let start ← roundUp 32 profile unallocatedMemoryStart 4
        let pmpRegionSize ← regionSize profile initialAppMemorySize
        let needed ← add 32 profile pmpRegionSize initialKernelMemorySize
        let memoryBlockSize := max minMemorySize needed
        let blockEnd ← add 32 profile start memoryBlockSize
        let unallocatedMemoryEnd ← add 32 profile unallocatedMemoryStart unallocatedMemorySize
        if unallocatedMemoryEnd < blockEnd then
          return (none, config)
        else if ← config.overlapsAny profile start memoryBlockSize then
          return (none, config)
        else
          let stop ← add 32 profile start pmpRegionSize
          return (some (start, memoryBlockSize),
            { config.setRegion regionNum
                ⟨.ofPermissions permissions, start, stop⟩ with
              appMemoryRegion := some regionNum })

def updateAppMemoryRegion (appMemoryBreak kernelMemoryBreak : ℕ) (permissions : Permissions)
    (config : PMPUserMPUConfig maxRegions) :
    Except Trap (Except Unit Unit × PMPUserMPUConfig maxRegions) :=
  match config.appMemoryRegion with
  | none => return (.error (), config)
  | some regionNum => do
      let appMemoryBreak ← roundUp 32 profile appMemoryBreak 4
      if kernelMemoryBreak < appMemoryBreak then
        return (.error (), config)
      else
        return (.ok (), config.setRegion regionNum
          { config.regions regionNum with
            cfg := .ofPermissions permissions
            stop := appMemoryBreak })

end TockKernel.Pmp

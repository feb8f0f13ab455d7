import TockKernel.ProcessLayout
import Mathlib.Data.Multiset.AddSub

/-!
# The extra MPU regions of a process

The kernel keeps the regions added with `add_mpu_region` twice: in the MPU
configuration, which decides what the process can access, and in the six slots
of `mpu_regions`, which decide what `remove_mpu_region` can take back. The two
agree as long as no slot is missing when a region is allocated and the process
holds no extra region when it is restarted.
-/

namespace TockKernel

open ProcessStandard Option List

/-- The documented behaviour with respect to the regions handed out by
`allocate_region`. `regions` reads them off a configuration; the memory of the
process is kept apart. -/
structure Mpu.RegionContract (M : Mpu) where
  regions : M.MpuConfig → Multiset Region
  newConfig_regions : ∀ config, M.newConfig = some config → regions config = 0
  resetConfig_regions : ∀ config, regions (M.resetConfig config) = 0
  allocateRegion_some : ∀ start size minSize permissions config region config',
      M.allocateRegion start size minSize permissions config = (some region, config') →
      regions config' = region ::ₘ regions config
  allocateRegion_none : ∀ start size minSize permissions config config',
      M.allocateRegion start size minSize permissions config = (none, config') → config' = config
  removeMemoryRegion_ok : ∀ region config config',
      M.removeMemoryRegion region config = (.ok (), config') →
      regions config' = (regions config).erase region
  removeMemoryRegion_error : ∀ region config config',
      M.removeMemoryRegion region config = (.error (), config') → regions config' = regions config
  allocateApp_regions : ∀ start size minSize appSize kernelSize permissions config,
      regions (M.allocateAppMemoryRegion start size minSize appSize kernelSize
        permissions config).2 = regions config

/-! ## The slots -/

def recorded (slots : List (Option Region)) : Multiset Region :=
  (slots.filterMap id : List Region)

theorem recorded_cons_some (region : Region) (slots : List (Option Region)) :
    recorded (some region :: slots) = region ::ₘ recorded slots := rfl

theorem recorded_replicate_none (n : ℕ) : recorded (replicate n none) = 0 := by
  induction n with
  | zero => rfl
  | succ n ih =>
    exact ih

theorem recorded_set_some {slots : List (Option Region)} {slot : ℕ}
    (region : Region) (hfree : slots.findIdx? isNone = some slot) :
    recorded (slots.set slot (some region)) = region ::ₘ recorded slots := by
  induction slots generalizing slot with
  | nil => simp at hfree
  | cons first rest ih =>
    cases first with
    | none =>
      simp only [findIdx?_cons, isNone_none, if_true, some.injEq] at hfree
      subst hfree
      rfl
    | some other =>
      simp only [findIdx?_cons, isNone_some, Bool.false_eq_true, if_false, map_eq_some_iff] at hfree
      obtain ⟨slot, hfree, rfl⟩ := hfree
      rw [set_cons_succ, recorded_cons_some, ih hfree, recorded_cons_some, Multiset.cons_swap]

theorem recorded_set_none {slots : List (Option Region)} {slot : ℕ} {region : Region}
    (hheld : slots.findIdx? (· == some region) = some slot) :
    recorded slots = region ::ₘ recorded (slots.set slot none) := by
  induction slots generalizing slot with
  | nil => simp at hheld
  | cons first rest ih =>
    by_cases hfirst : first = some region
    · simp only [findIdx?_cons, hfirst, beq_self_eq_true, if_true, some.injEq] at hheld
      subst hheld hfirst
      rfl
    simp only [findIdx?_cons, beq_eq_false_iff_ne.mpr hfirst,
      Bool.false_eq_true, if_false, map_eq_some_iff] at hheld
    obtain ⟨slot, hheld, rfl⟩ := hheld
    rw [set_cons_succ]
    cases first with
    | none => exact ih hheld
    | some other =>
      rw [recorded_cons_some, recorded_cons_some, ih hheld, Multiset.cons_swap]

namespace ProcessStandard

variable {B : Board} {p : ProcessStandard B}

def trackedRegions (p : ProcessStandard B) : Multiset Region :=
  recorded p.mpuRegions

/-- A region that the MPU has chosen for the flash of the process in a
configuration without other regions. -/
def IsFlashRegion (C : B.chip.mpu.RegionContract) (flash : Slice) (region : Region) : Prop :=
  ∃ config, C.regions config = 0 ∧ (B.chip.mpu.allocateRegion flash.start flash.len flash.len
      .readExecuteOnly config).1 = some region

/-- The slots hold exactly what the configuration grants besides the flash and
the memory of the process. -/
def TracksExactly (C : B.chip.mpu.RegionContract) (p : ProcessStandard B) : Prop :=
  match p.mpuConfig with
  | none => p.trackedRegions = 0
  | some config => ∃ flash, IsFlashRegion C p.flash flash ∧
      C.regions config = flash ::ₘ p.trackedRegions

/-- The region that the MPU would allocate for `add_mpu_region`. -/
def regionFor (p : ProcessStandard B) (start size minSize : Usize) : Option Region :=
  p.mpuConfig.bind fun config =>
    (B.chip.mpu.allocateRegion start size minSize .readWriteOnly config).1

/-! ## Adding and removing -/

variable {minSize : Usize} {region : Region}
  {config' config : B.chip.mpu.MpuConfig} {C : B.chip.mpu.RegionContract}
  {q : ProcessStandard B}

theorem addMpuRegion_of_regionFor_none (C : B.chip.mpu.RegionContract)
    {start size : Usize} (hnone : p.regionFor start size minSize = none) :
    p.addMpuRegion start size minSize = (none, p) := by
  unfold addMpuRegion
  cases hconfig : p.mpuConfig with
  | none => rfl
  | some config =>
    simp only [regionFor, hconfig, bind_some] at hnone
    cases hallocate : B.chip.mpu.allocateRegion start size minSize .readWriteOnly config with
    | mk region config' =>
      rw [hallocate] at hnone
      subst hnone
      have hkept := C.allocateRegion_none _ _ _ _ _ _ hallocate
      subst hkept
      simp only [hallocate]
      rw [← hconfig]

theorem regionFor_eq_some {start size : Usize}
    (hregion : p.regionFor start size minSize = some region) :
    ∃ config config', p.mpuConfig = some config ∧
      B.chip.mpu.allocateRegion start size minSize .readWriteOnly config =
        (some region, config') := by
  obtain ⟨config, hconfig, hallocate⟩ := bind_eq_some_iff.mp hregion
  exact ⟨config, _, hconfig, Prod.ext hallocate rfl⟩

section

variable {start size : Usize} (hconfig : p.mpuConfig = some config)
  (hallocate : B.chip.mpu.allocateRegion start size minSize .readWriteOnly config =
    (some region, config'))
include hconfig hallocate

theorem addMpuRegion_of_free {slot : ℕ} (hfree : p.mpuRegions.findIdx? isNone = some slot) :
    p.addMpuRegion start size minSize =
      (some region, { p with
        mpuConfig := some config'
        mpuRegions := p.mpuRegions.set slot (some region) }) := by
  simp [addMpuRegion, hconfig, hallocate, hfree]

theorem addMpuRegion_of_full (hfull : p.mpuRegions.findIdx? isNone = none) :
    p.addMpuRegion start size minSize = (none, { p with mpuConfig := some config' }) := by
  simp [addMpuRegion, hconfig, hallocate, hfull]

end

theorem TracksExactly.exists_flash (htracks : p.TracksExactly C)
    (hconfig : p.mpuConfig = some config) : ∃ flash, IsFlashRegion C p.flash flash ∧
      C.regions config = flash ::ₘ p.trackedRegions := by
  simpa only [TracksExactly, hconfig] using htracks

theorem TracksExactly.of_some {flash : Region} (hconfig : p.mpuConfig = some config)
    (hflash : IsFlashRegion C p.flash flash)
    (hregions : C.regions config = flash ::ₘ p.trackedRegions) : p.TracksExactly C := by
  simpa only [TracksExactly, hconfig] using ⟨flash, hflash, hregions⟩

section

variable {start size : Usize} (htracks : p.TracksExactly C)
  (hregion : p.regionFor start size minSize = some region)
include htracks hregion

theorem addMpuRegion_tracks {slot : ℕ} (hfree : p.mpuRegions.findIdx? isNone = some slot) :
    (p.addMpuRegion start size minSize).2.TracksExactly C := by
  obtain ⟨_, config', hconfig, hallocate⟩ := regionFor_eq_some hregion
  obtain ⟨flash, hflash, hregions⟩ := htracks.exists_flash hconfig
  rw [addMpuRegion_of_free hconfig hallocate hfree]
  refine .of_some rfl hflash ?_
  change C.regions config' = flash ::ₘ recorded (p.mpuRegions.set slot (some region))
  rw [C.allocateRegion_some _ _ _ _ _ _ _ hallocate, hregions,
    recorded_set_some region hfree, Multiset.cons_swap]
  rfl

theorem addMpuRegion_loses_track (hfull : p.mpuRegions.findIdx? isNone = none) :
    ¬ (p.addMpuRegion start size minSize).2.TracksExactly C := by
  obtain ⟨_, _, hconfig, hallocate⟩ := regionFor_eq_some hregion
  obtain ⟨_, -, hregions⟩ := htracks.exists_flash hconfig
  rw [addMpuRegion_of_full hconfig hallocate hfull]
  intro htracks'
  obtain ⟨_, -, hregions'⟩ := htracks'.exists_flash rfl
  rw [C.allocateRegion_some _ _ _ _ _ _ _ hallocate, hregions] at hregions'
  have hcard := congrArg Multiset.card hregions'
  simp only [Multiset.card_cons, trackedRegions] at hcard
  omega

end

theorem removeMpuRegion_tracks (htracks : p.TracksExactly C) (region : Region) :
    (p.removeMpuRegion region).2.TracksExactly C := by
  unfold removeMpuRegion
  cases hconfig : p.mpuConfig with
  | none => exact htracks
  | some config =>
    obtain ⟨_, hflash, hregions⟩ := htracks.exists_flash hconfig
    cases hheld : p.mpuRegions.findIdx? (· == some region) with
    | none => exact htracks
    | some slot =>
      simp only
      split
      case h_1 config' hremove =>
        refine .of_some rfl hflash ?_
        exact (C.removeMemoryRegion_error _ _ _ hremove).trans hregions
      case h_2 config' hremove =>
        refine .of_some rfl hflash ?_
        rw [C.removeMemoryRegion_ok _ _ _ hremove, hregions,
          trackedRegions, recorded_set_none hheld, Multiset.cons_swap, Multiset.erase_cons_head]
        rfl

/-! ## Restarting -/

/-- What a restart is to leave behind: no region is recorded, and the process
can reach its flash and its memory only. -/
structure StartsAfresh (C : B.chip.mpu.RegionContract) (p : ProcessStandard B) : Prop where
  untracked : p.trackedRegions = 0
  only_flash : ∀ config, p.mpuConfig = some config →
    ∃ flash, IsFlashRegion C p.flash flash ∧ C.regions config = {flash}

/-- What a restart does leave behind: the configuration is set up again, the
slots are as they were. -/
structure Reset (C : B.chip.mpu.RegionContract) (p q : ProcessStandard B) : Prop where
  mpuRegions_eq : q.mpuRegions = p.mpuRegions
  flash_eq : q.flash = p.flash
  only_flash : ∀ config, q.mpuConfig = some config →
    ∃ flash, IsFlashRegion C q.flash flash ∧ C.regions config = {flash}

theorem Reset.startsAfresh (hreset : Reset C p q)
    (hnone : p.trackedRegions = 0) : q.StartsAfresh C where
  untracked := by rw [trackedRegions, hreset.mpuRegions_eq]; exact hnone
  only_flash := hreset.only_flash

theorem StartsAfresh.tracksExactly (hfresh : p.StartsAfresh C) : p.TracksExactly C := by
  cases hconfig : p.mpuConfig with
  | none =>
    simp only [TracksExactly, hconfig]
    exact hfresh.untracked
  | some config =>
    obtain ⟨_, hflash, hregions⟩ := hfresh.only_flash config hconfig
    refine .of_some hconfig hflash ?_
    rw [hregions, hfresh.untracked]
    rfl

theorem Reset.trackedRegions_eq (hreset : Reset C p q)
    (hfresh : q.StartsAfresh C) : p.trackedRegions = 0 := by
  rw [trackedRegions, ← hreset.mpuRegions_eq]
  exact hfresh.untracked

theorem reallocate_regions (C : B.chip.mpu.RegionContract) {start len : Usize}
    (hok : p.reallocate config = .ok (start, len, config')) :
    ∃ flash, IsFlashRegion C p.flash flash ∧ C.regions config' = {flash} := by
  unfold reallocate at hok
  have hempty := C.resetConfig_regions config
  split at hok
  · cases hok
  case h_2 flash flashConfig hallocate =>
    split at hok
    · cases hok
    case h_2 memStart memLen memConfig hmemory =>
      cases hok
      refine ⟨flash, ⟨_, hempty, congrArg Prod.fst hallocate⟩, ?_⟩
      have hkept := C.allocateApp_regions p.memStart p.memoryLen p.memoryLen
        B.chip.ukb.initialProcessAppBrkSize (resetKernelMemorySize B) .readWriteOnly flashConfig
      rw [hmemory] at hkept
      rw [hkept, C.allocateRegion_some _ _ _ _ _ _ _ hallocate, hempty]
      rfl

theorem initializeAgain_frame (p : ProcessStandard B) (start : Usize) :
    (p.initializeAgain start).2.mpuRegions = p.mpuRegions ∧
      (p.initializeAgain start).2.flash = p.flash ∧
      (p.initializeAgain start).2.mpuConfig = p.mpuConfig := by
  unfold initializeAgain
  split
  · exact ⟨rfl, rfl, rfl⟩
  simp only [enqueueTask]
  split
  · exact ⟨rfl, rfl, rfl⟩
  · split <;> exact ⟨rfl, rfl, rfl⟩

theorem resetAs_reset (C : B.chip.mpu.RegionContract) (p : ProcessStandard B)
    (newIdentifier : Usize) : Reset C p (p.resetAs newIdentifier).2 := by
  unfold resetAs
  simp only
  split
  case h_1 hconfig =>
    exact ⟨rfl, rfl, fun config hsome => by
      rw [hconfig] at hsome; cases hsome⟩
  case h_2 config hconfig =>
    split
    · exact ⟨rfl, rfl, fun config hsome => by cases hsome⟩
    case h_2 start len config' hok =>
      obtain ⟨hslots, hflash, hkept⟩ := initializeAgain_frame
        ((p.newIncarnation newIdentifier).relayOut start len config') start
      refine ⟨hslots, hflash, fun final hfinal => ?_⟩
      rw [hkept] at hfinal
      cases hfinal
      rw [hflash]
      exact reallocate_regions C hok

theorem resetToYielded_reset (C : B.chip.mpu.RegionContract)
    (p : ProcessStandard B) (kernel : Kernel) : Reset C p (p.resetToYielded kernel).1 := by
  have hreset := resetAs_reset C p kernel.createProcessIdentifier.1
  unfold resetToYielded reset
  split
  case h_1 heq =>
    rw [(Prod.ext_iff.mp (Prod.ext_iff.mp heq).1).2] at hreset
    exact ⟨hreset.mpuRegions_eq, hreset.flash_eq, hreset.only_flash⟩
  case h_2 heq =>
    rw [(Prod.ext_iff.mp (Prod.ext_iff.mp heq).1).2] at hreset
    exact hreset

theorem terminate_frame (p : ProcessStandard B) (completionCode : Option (BitVec 32)) :
    (p.terminate completionCode).mpuRegions = p.mpuRegions ∧
      (p.terminate completionCode).flash = p.flash ∧
      (p.terminate completionCode).mpuConfig = p.mpuConfig := by
  unfold terminate
  split_ifs <;> exact ⟨rfl, rfl, rfl⟩

theorem TracksExactly.congr (htracks : p.TracksExactly C) (hslots : q.mpuRegions = p.mpuRegions)
    (hflash : q.flash = p.flash) (hconfig : q.mpuConfig = p.mpuConfig) : q.TracksExactly C := by
  unfold TracksExactly trackedRegions at *
  rw [hslots, hflash, hconfig]
  exact htracks

theorem create_tracks (C : B.chip.mpu.RegionContract) {arguments : CreateArguments}
    {kernel kernel0 : Kernel} {p0 : ProcessStandard B} {unused : MemorySlice}
    (hcreate : create arguments kernel = .ok (.ok (p0, unused), kernel0)) : p0.TracksExactly C := by
  unfold create at hcreate
  simp only at hcreate
  split at hcreate
  · cases hcreate
  rename_i empty hnew
  split at hcreate
  · cases hcreate
  rename_i flash flashConfig hallocate
  split at hcreate
  · cases hcreate
  rename_i remaining hskip
  split at hcreate
  · cases hcreate
  rename_i start len config happ
  split_ifs at hcreate with hmismatch hsplit
  · cases hcreate
  have hempty := C.newConfig_regions empty hnew
  have hflash : IsFlashRegion C arguments.pb.flash flash :=
    ⟨empty, hempty, congrArg Prod.fst hallocate⟩
  have hkept := C.allocateApp_regions remaining.start remaining.len
    (cmpMax arguments.pb.header.getMinimumAppRamSize B.chip.ukb.initialProcessAppBrkSize +
      (B.grantPtrsOffset + B.callbacksOffset + B.processStructOffset + 4))
    B.chip.ukb.initialProcessAppBrkSize
    (B.grantPtrsOffset + B.callbacksOffset + B.processStructOffset + 4) .readWriteOnly flashConfig
  rw [happ, C.allocateRegion_some _ _ _ _ _ _ _ hallocate, hempty] at hkept
  unfold createIn at hcreate
  simp only at hcreate
  split at hcreate
  · cases hcreate
  cases hcreate
  refine .of_some rfl hflash ?_
  exact hkept.trans (congrArg (flash ::ₘ ·) (recorded_replicate_none 6).symm)

end ProcessStandard

/-! ## Runs -/

/-- The calls that change the extra regions of a process, and those that end
it and start it again. -/
inductive RegionStep where
  | addMpuRegion (unallocatedMemoryStart unallocatedMemorySize minRegionSize : Usize)
  | removeMpuRegion (region : Region)
  | terminate (completionCode : Option (BitVec 32))
  | tryRestart (completionCode : Option (BitVec 32))
  | start

namespace RegionStep

variable {B : Board}

def apply : RegionStep → ProcessStandard B × Kernel → ProcessStandard B × Kernel
  | .addMpuRegion memory size minSize, (p, kernel) =>
    ((p.addMpuRegion memory size minSize).2, kernel)
  | .removeMpuRegion region, (p, kernel) =>
    ((p.removeMpuRegion region).2, kernel)
  | .terminate completionCode, (p, kernel) =>
    (p.terminate completionCode, kernel)
  | .tryRestart completionCode, (p, kernel) =>
    p.tryRestart completionCode kernel
  | .start, (p, kernel) => p.start kernel

def Restarts (p : ProcessStandard B) : RegionStep → Prop
  | .tryRestart _ => p.state ≠ .terminated
  | .start => p.state = .terminated
  | _ => False

/-- The slots are exact after the step, an addition that is refused leaves the
configuration alone, and a restart leaves no extra region behind. -/
structure KeepsTrack (C : B.chip.mpu.RegionContract) (step : RegionStep)
    (s : ProcessStandard B × Kernel) : Prop where
  tracks : (step.apply s).1.TracksExactly C
  refused : ∀ memory size minSize, step = .addMpuRegion memory size minSize →
    (s.1.addMpuRegion memory size minSize).1 = none → (step.apply s).1.mpuConfig = s.1.mpuConfig
  restarted : step.Restarts s.1 → (step.apply s).1.StartsAfresh C

/-- There is a slot for the region that is added, and no region is held when
the process is restarted. -/
def Allowed (p : ProcessStandard B) : RegionStep → Prop
  | .addMpuRegion memory size minSize =>
    none ∈ p.mpuRegions ∨ p.regionFor memory size minSize = none
  | .removeMpuRegion _ | .terminate _ => True
  | .tryRestart _ => p.state ≠ .terminated → p.trackedRegions = 0
  | .start => p.state = .terminated → p.trackedRegions = 0

variable {C : B.chip.mpu.RegionContract} {s : ProcessStandard B × Kernel}

theorem addMpuRegion_keepsTrack_iff (htracks : s.1.TracksExactly C) (memory size minSize : Usize) :
    KeepsTrack C (.addMpuRegion memory size minSize) s ↔
      Allowed s.1 (.addMpuRegion memory size minSize) := by
  obtain ⟨p, _⟩ := s
  cases hregion : p.regionFor memory size minSize with
  | none =>
    have hsame := addMpuRegion_of_regionFor_none C hregion
    refine iff_of_true ⟨?_, ?_, False.elim⟩ (.inr hregion)
    · simp only [apply, hsame]
      exact htracks
    · intro memory size minSize hstep hnone
      simp [apply, hsame]
  | some region =>
    cases hslot : p.mpuRegions.findIdx? isNone with
    | none =>
      refine iff_of_false (fun hkeeps => ?_) ?_
      · exact addMpuRegion_loses_track htracks hregion hslot hkeeps.tracks
      · rintro (hfree | hnone)
        · exact absurd (findIdx?_eq_none_iff.mp hslot _ hfree) (by simp)
        · rw [hregion] at hnone
          cases hnone
    | some slot =>
      obtain ⟨_, _, hconfig, hallocate⟩ := regionFor_eq_some hregion
      have hadded := addMpuRegion_of_free hconfig hallocate hslot
      refine iff_of_true ⟨?_, ?_, False.elim⟩ (.inl ?_)
      · exact addMpuRegion_tracks htracks hregion hslot
      · intro memory size minSize hstep hnone
        cases hstep
        rw [hadded] at hnone
        cases hnone
      · obtain ⟨hlt, hfree, -⟩ := findIdx?_eq_some_iff_getElem.mp hslot
        rw [isNone_iff_eq_none] at hfree
        rw [← hfree]
        exact getElem_mem hlt

theorem keepsTrack_iff_of_reset {step : RegionStep} (hrestarts : step.Restarts s.1)
    (hreset : Reset C s.1 (step.apply s).1) : KeepsTrack C step s ↔ s.1.trackedRegions = 0 := by
  constructor
  · intro hkeeps
    exact hreset.trackedRegions_eq (hkeeps.restarted hrestarts)
  · intro hnone
    have hfresh := hreset.startsAfresh hnone
    refine ⟨hfresh.tracksExactly, ?_, fun _ => hfresh⟩
    rintro memory size minSize rfl
    exact hrestarts.elim

theorem keepsTrack_of_same {step : RegionStep} (htracks : s.1.TracksExactly C)
    (hrestarts : ¬ step.Restarts s.1) (hslots : (step.apply s).1.mpuRegions = s.1.mpuRegions)
    (hflash : (step.apply s).1.flash = s.1.flash)
    (hconfig : (step.apply s).1.mpuConfig = s.1.mpuConfig) : KeepsTrack C step s :=
  ⟨htracks.congr hslots hflash hconfig, fun _ _ _ _ _ => hconfig,
    fun hrestart => absurd hrestart hrestarts⟩

theorem keepsTrack_iff_allowed (htracks : s.1.TracksExactly C)
    (step : RegionStep) : KeepsTrack C step s ↔ step.Allowed s.1 := by
  obtain ⟨p, kernel⟩ := s
  cases step with
  | addMpuRegion memory size minSize =>
    exact addMpuRegion_keepsTrack_iff htracks memory size minSize
  | removeMpuRegion region =>
    refine iff_of_true ⟨?_, ?_, False.elim⟩ trivial
    · exact ProcessStandard.removeMpuRegion_tracks htracks region
    · intro memory size minSize hstep
      cases hstep
  | terminate completionCode =>
    obtain ⟨hslots, hflash, hconfig⟩ := ProcessStandard.terminate_frame p completionCode
    exact iff_of_true (keepsTrack_of_same htracks id hslots hflash hconfig) trivial
  | tryRestart completionCode =>
    by_cases hstate : p.state = .terminated
    · have hsame : apply (.tryRestart completionCode) (p, kernel) = (p, kernel) := by
        simp [apply, ProcessStandard.tryRestart, hstate]
      refine iff_of_true (keepsTrack_of_same htracks (absurd hstate) ?_ ?_ ?_) (absurd hstate)
      all_goals rw [hsame]
    have happly : apply (.tryRestart completionCode) (p, kernel) =
        (p.terminate completionCode).resetToYielded kernel := by
      simp [apply, ProcessStandard.tryRestart, hstate]
    obtain ⟨hslots, hflash, -⟩ := ProcessStandard.terminate_frame p completionCode
    have hreset := ProcessStandard.resetToYielded_reset C (p.terminate completionCode) kernel
    rw [← happly] at hreset
    have hrestarts : Restarts p (.tryRestart completionCode) := hstate
    rw [keepsTrack_iff_of_reset hrestarts
      ⟨hreset.mpuRegions_eq.trans hslots, hreset.flash_eq.trans hflash, hreset.only_flash⟩]
    exact ⟨fun hnone _ => hnone, fun hallowed => hallowed hstate⟩
  | start =>
    by_cases hstate : p.state = .terminated
    · have happly : apply .start (p, kernel) = p.resetToYielded kernel := by
        simp [apply, ProcessStandard.start, hstate]
      have hreset := ProcessStandard.resetToYielded_reset C p kernel
      rw [← happly] at hreset
      have hrestarts : Restarts p .start := hstate
      rw [keepsTrack_iff_of_reset hrestarts hreset]
      exact ⟨fun hnone _ => hnone, fun hallowed => hallowed hstate⟩
    have hsame : apply .start (p, kernel) = (p, kernel) := by
      simp [apply, ProcessStandard.start, hstate]
    refine iff_of_true (keepsTrack_of_same htracks hstate ?_ ?_ ?_) fun hterm => absurd hterm hstate
    all_goals rw [hsame]

/-- Every step of a run from `s` is as it should be. -/
def RunKeepsTrack (C : B.chip.mpu.RegionContract) :
    List RegionStep → ProcessStandard B × Kernel → Prop
  | [], _ => True
  | step :: steps, s => KeepsTrack C step s ∧ RunKeepsTrack C steps (step.apply s)

/-- Every step of a run from `s` meets its condition in the state in which it
is made. -/
def RunAllowed : List RegionStep → ProcessStandard B × Kernel → Prop
  | [], _ => True
  | step :: steps, s => step.Allowed s.1 ∧ RunAllowed steps (step.apply s)

theorem runKeepsTrack_iff (steps : List RegionStep) (htracks : s.1.TracksExactly C) :
    RunKeepsTrack C steps s ↔ RunAllowed steps s := by
  induction steps generalizing s with
  | nil => exact Iff.rfl
  | cons step steps ih =>
    simp only [RunAllowed]
    rw [← keepsTrack_iff_allowed htracks step]
    exact and_congr_right fun hkeeps => ih hkeeps.tracks

end RegionStep

/-- The slots of a new process are exact, and they stay exact along a run, with
refused additions without effect and no region left over by a restart, exactly
if each step meets its condition. -/
theorem mpu_regions_tracked {B : Board} (C : B.chip.mpu.RegionContract)
    (arguments : CreateArguments) (kernel : Kernel) {kernel0 : Kernel}
    {p0 : ProcessStandard B} {unused : MemorySlice}
    (hcreate : ProcessStandard.create arguments kernel =
      .ok (.ok (p0, unused), kernel0)) (steps : List RegionStep) :
    p0.TracksExactly C ∧ (RegionStep.RunKeepsTrack C steps (p0, kernel0) ↔
        RegionStep.RunAllowed steps (p0, kernel0)) := by
  have htracks := create_tracks C hcreate
  exact ⟨htracks, RegionStep.runKeepsTrack_iff steps htracks⟩

/-! ## A concrete process -/

def Region.overlaps (a b : Region) : Bool :=
  a.startAddress.toNat < b.startAddress.toNat + b.size.toNat &&
    b.startAddress.toNat < a.startAddress.toNat + a.size.toNat

/-- The unaligned MPU, which now refuses regions that overlap earlier ones and
removes one region at a time. -/
def disjointMpu : Mpu :=
  { unalignedMpu with
    allocateRegion := fun start size minSize permissions (config : UnalignedConfig) =>
      if minSize > size ∨ config.regions.any (·.1.overlaps ⟨start, minSize⟩) then
        (none, config)
      else
        (some ⟨start, minSize⟩, { config with
          regions := (⟨start, minSize⟩, permissions) :: config.regions })
    removeMemoryRegion := fun region (config : UnalignedConfig) =>
      if region ∈ config.regions.map (·.1) then
        (.ok (), { config with
          regions := config.regions.eraseP (·.1 == region) })
      else
        (.error (), config) }

theorem map_eraseP_fst (entries : List (Region × Permissions)) (region : Region) :
    (entries.eraseP (·.1 == region)).map (·.1) = (entries.map (·.1)).erase region := by
  induction entries with
  | nil => rfl
  | cons entry entries ih =>
    by_cases hentry : entry.1 = region
    · simp [hentry]
    · simp [hentry, ih]

def disjointMpuRegions : disjointMpu.RegionContract where
  regions config := (UnalignedConfig.regions config).map (·.1)
  newConfig_regions := by
    rintro config ⟨⟩
    rfl
  resetConfig_regions _ := rfl
  allocateRegion_some := by
    intro start size minSize permissions config region config' hallocate
    simp only [disjointMpu] at hallocate
    split_ifs at hallocate
    · cases hallocate
    · cases hallocate
      rfl
  allocateRegion_none := by
    intro start size minSize permissions config config' hallocate
    simp only [disjointMpu] at hallocate
    split_ifs at hallocate
    · cases hallocate
      rfl
    · cases hallocate
  removeMemoryRegion_ok := by
    intro region config config' hremove
    simp only [disjointMpu] at hremove
    split_ifs at hremove
    · cases hremove
      rw [map_eraseP_fst, Multiset.coe_erase]
    · cases hremove
  removeMemoryRegion_error := by
    intro region config config' hremove
    simp only [disjointMpu] at hremove
    split_ifs at hremove
    · cases hremove
    · cases hremove
      rfl
  allocateApp_regions := by
    intro start size minSize appSize kernelSize permissions config
    simp only [disjointMpu, unalignedMpu]
    split_ifs <;> rfl

def disjointBoard : Board where
  chip := { smallBoard.chip with mpu := disjointMpu }
  grantCount := 2
  four_dvd_sizeOfTask := by decide
  four_dvd_sizeOfProcessStandard := by decide
  kernelObjects_fit := by decide

def shareBuffer (number : ℕ) : RegionStep :=
  .addMpuRegion (0x30000000 + BitVec.ofNat 32 (64 * number)) 64 64

theorem mpu_regions_tracked_small : ∃ (p0 : ProcessStandard disjointBoard) (unused : MemorySlice)
      (kernel0 : Kernel), ProcessStandard.create (smallArguments 1024) ⟨0⟩ =
        .ok (.ok (p0, unused), kernel0) ∧ RegionStep.RunKeepsTrack disjointMpuRegions
        [shareBuffer 0, .removeMpuRegion ⟨0x30000000, 64⟩, .tryRestart none] (p0, kernel0) := by
  refine ⟨_, _, _, rfl, ?_⟩
  refine (mpu_regions_tracked (B := disjointBoard) disjointMpuRegions
    (smallArguments 1024) ⟨0⟩ rfl _).2.mpr ?_
  refine And.intro (.inl ?_) (And.intro trivial (And.intro ?_ trivial))
  · exact mem_cons_self
  · intro _
    rfl

/-- With six regions shared, a seventh is refused but stays accessible; and a
region shared with one incarnation is still recorded for the next. -/
theorem mpu_regions_not_tracked : ∃ (p0 : ProcessStandard disjointBoard) (unused : MemorySlice)
      (kernel0 : Kernel), ProcessStandard.create (smallArguments 1024) ⟨0⟩ =
        .ok (.ok (p0, unused), kernel0) ∧ ¬ RegionStep.RunKeepsTrack disjointMpuRegions
        [shareBuffer 0, shareBuffer 1, shareBuffer 2, shareBuffer 3,
          shareBuffer 4, shareBuffer 5, shareBuffer 6] (p0, kernel0) ∧
      ¬ RegionStep.RunKeepsTrack disjointMpuRegions
        [shareBuffer 0, .tryRestart none] (p0, kernel0) := by
  refine ⟨_, _, _, rfl, ?_, ?_⟩
  · rintro ⟨-, -, -, -, -, -, hkeeps, -⟩
    have hconfig := hkeeps.refused _ _ _ rfl rfl
    have hregions := congrArg (Option.map UnalignedConfig.regions) hconfig
    revert hregions
    decide
  · rintro ⟨-, hkeeps, -⟩
    have hfresh := hkeeps.restarted (by intro h; cases h)
    have huntracked := congrArg Multiset.card hfresh.untracked
    revert huntracked
    decide

end TockKernel

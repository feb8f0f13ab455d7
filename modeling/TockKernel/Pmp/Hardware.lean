import TockKernel.CortexMHardware
import TockKernel.Pmp.Programming
import TockKernel.Pmp.UserMpu

/-!
# What the protection unit holds

`PMPUserMPU` skips `configure_pmp` in the same way as the Cortex-M driver skips
its writes. It works with any `TORUserPMP`; what it needs of one is that
`configure_pmp` makes it hold the regions and that switching user mode on and off
does not change that. The drivers for the PMP and the ePMP have this property.
-/

namespace TockKernel.Pmp

open Arithmetic
open TORUserPMPCFG (off)
open KernelProtectionMMLEPMP List

/-- The trait, with what its documentation asks of an implementation: `Holds`
says that the regions are those that user mode runs with. -/
structure TORUserPMP (maxRegions : ℕ) where
  State : Type
  configurePmp : List PmpRegion → State → Option (Except Unit Unit × State)
  enableUserPmp : State → Option (Except Unit Unit × State)
  disableUserPmp : State → Option State
  Valid : State → Prop
  Holds : State → List PmpRegion → Prop
  configure_holds : ∀ {regions s s'}, Valid s → regions.length = maxRegions →
    configurePmp regions s = some (.ok (), s') → Valid s' ∧ Holds s' regions
  enable_holds : ∀ {s s'}, Valid s → enableUserPmp s = some (.ok (), s') →
    Valid s' ∧ ∀ regions, Holds s regions → Holds s' regions
  disable_holds : ∀ {s s'}, Valid s → disableUserPmp s = some s' →
    Valid s' ∧ ∀ regions, Holds s regions → Holds s' regions

/-! ## The drivers -/

def OctetsLoaded (csr : Csr) (first : ℕ) (regions : List PmpRegion) : Prop :=
  ∀ k (h : k < regions.length), csr.octet (first + 2 * k) = off.get ∧
      csr.octet (first + 2 * k + 1) = regions[k].cfg.get

def AddressesLoaded (csr : Csr) (first : ℕ) (regions : List PmpRegion) : Prop :=
  ∀ k (h : k < regions.length), regions[k].cfg ≠ off →
    csr.pmpaddr (first + 2 * k) = regions[k].start >>> 2 ∧
      csr.pmpaddr (first + 2 * k + 1) = regions[k].stop >>> 2

/-- `SimplePMP` and `KernelProtectionPMP`, which never switch user mode off. -/
def plainPMP {maxRegions : ℕ} (h : maxRegions ≤ 32) : TORUserPMP maxRegions where
  State := Csr
  configurePmp := SimplePMP.configurePmp
  enableUserPmp := fun csr => some (.ok (), csr)
  disableUserPmp := fun csr => some csr
  Valid := fun _ => True
  Holds := fun csr regions =>
    OctetsLoaded csr 0 regions ∧ AddressesLoaded csr 0 regions
  configure_holds := by
    intro regions csr csr' _ hlength hrun
    obtain ⟨programmed, hconfigured, hprogrammed⟩ :=
      configureRegions_programmed (show regions.length ≤ 32 by omega) csr
    rw [SimplePMP.configurePmp, hconfigured] at hrun
    cases hrun
    exact ⟨trivial, hprogrammed.octets, hprogrammed.addresses⟩
  enable_holds := by
    intro csr csr' _ hrun
    cases hrun
    exact ⟨trivial, fun _ h => h⟩
  disable_holds := by
    intro csr csr' _ hrun
    cases hrun
    exact ⟨trivial, fun _ h => h⟩

/-- The octets are in the shadow registers, and in the entries while user mode
is enabled. -/
structure EPMP.Holds (first : ℕ) (pmp : EPMP) (regions : List PmpRegion) : Prop where
  shadow : pmp.shadowUserPmpcfgs = regions.map (·.cfg)
  addresses : AddressesLoaded pmp.csr first regions
  octets : pmp.userPmpEnabled = true → OctetsLoaded pmp.csr first regions

def DisablesUser (disable : EPMP → Option EPMP) (mpuRegions : ℕ) : Prop :=
  ∀ pmp pmp' : EPMP, pmp.shadowUserPmpcfgs.length = mpuRegions → disable pmp = some pmp' →
    pmp'.shadowUserPmpcfgs = pmp.shadowUserPmpcfgs ∧
      pmp'.csr.pmpaddr = pmp.csr.pmpaddr ∧ pmp'.userPmpEnabled = false

section ShadowDrivers

variable {entryOf : ℕ → ℕ} {enable : EPMP → Option (Except Unit Unit × EPMP)}
  {disable : EPMP → Option EPMP} {first : ℕ} {regions : List PmpRegion}
  {pmp pmp' : EPMP}

theorem octetsLoaded_of_write {before csr : Csr} {cfgs : List TORUserPMPCFG}
    (hcfgs : cfgs = regions.map (·.cfg)) (h : csr.octet = writeOctets cfgs first before.octet) :
    OctetsLoaded csr first regions := by
  subst hcfgs
  intro k hk
  have hlen : k < (regions.map (·.cfg)).length := by
    rwa [length_map]
  have hat := writeOctets_at first before.octet hlen
  rw [getElem_map] at hat
  rw [h]
  exact hat

theorem EPMP.holds_of_enable {mpuRegions : ℕ} (henable : EnablesFrom enable first mpuRegions)
    (hvalid : pmp.shadowUserPmpcfgs.length = mpuRegions) (hrun : enable pmp = some (.ok (), pmp'))
    (hshadow : pmp.shadowUserPmpcfgs = regions.map (·.cfg))
    (haddresses : AddressesLoaded pmp.csr first regions) : pmp'.Holds first regions := by
  obtain ⟨_, henabled, hoctet, haddr⟩ := henable pmp hvalid
  rw [hrun] at henabled
  cases henabled
  refine ⟨hshadow, ?_, fun _ => octetsLoaded_of_write hshadow hoctet⟩
  intro k hk hon
  rw [haddr]
  exact haddresses k hk hon

theorem EPMP.holds_of_configure (hentry : ∀ i, entryOf i = first + i * 2)
    (henable : EnablesFrom enable first regions.length)
    (hlen : pmp.shadowUserPmpcfgs.length = regions.length) (hfits : first + regions.length * 2 ≤ 64)
    (hrun : EPMP.configure entryOf enable regions pmp = some (.ok (), pmp')) :
    pmp'.Holds first regions := by
  obtain ⟨_, shadowed, written, hloop, hshadowed, -, hok, herror⟩ :=
    exists_shadowRegions_zip hentry hlen hfits
  have hregions : Programmable regions := by
    by_contra hnot
    rw [EPMP.configure, hloop, herror hnot] at hrun
    cases hrun
  obtain ⟨rfl, rfl⟩ := hok hregions
  have hcfgs := hshadowed.shadow_eq hlen
  have haddresses : AddressesLoaded shadowed.csr first written := by
    intro k hk hon
    rw [hshadowed.pmpaddr]
    exact writeAddresses_at _ hk hon
  have hcount : shadowed.shadowUserPmpcfgs.length = written.length := by
    rw [hcfgs, length_map]
  simp only [EPMP.configure, hloop, Option.bind_eq_bind, Option.bind_some] at hrun
  split at hrun
  · exact EPMP.holds_of_enable henable hcount hrun hcfgs haddresses
  rename_i hdisabled
  cases hrun
  exact ⟨hcfgs, haddresses, fun henabled => absurd henabled hdisabled⟩

def shadowPMP {mpuRegions : ℕ} (hentry : ∀ i, entryOf i = first + i * 2)
    (henable : EnablesFrom enable first mpuRegions) (hdisable : DisablesUser disable mpuRegions)
    (hfits : first + mpuRegions * 2 ≤ 64) : TORUserPMP mpuRegions where
  State := EPMP
  configurePmp := EPMP.configure entryOf enable
  enableUserPmp := enable
  disableUserPmp := disable
  Valid := fun pmp => pmp.shadowUserPmpcfgs.length = mpuRegions
  Holds := EPMP.Holds first
  configure_holds := by
    intro regions pmp pmp' hvalid hlength hrun
    subst hlength
    have hholds := EPMP.holds_of_configure hentry henable hvalid hfits hrun
    refine ⟨?_, hholds⟩
    rw [hholds.shadow, List.length_map]
  enable_holds := by
    intro pmp pmp' hvalid hrun
    refine ⟨?_, fun regions hholds => EPMP.holds_of_enable henable hvalid hrun
      hholds.shadow hholds.addresses⟩
    obtain ⟨csr, henabled, -, -⟩ := henable pmp hvalid
    rw [hrun] at henabled
    cases henabled
    exact hvalid
  disable_holds := by
    intro pmp pmp' hvalid hrun
    obtain ⟨hshadow, haddr, hoff⟩ := hdisable pmp pmp' hvalid hrun
    refine ⟨hshadow.symm ▸ hvalid, ?_⟩
    intro regions hholds
    refine ⟨hshadow.trans hholds.shadow, ?_, ?_⟩
    · intro k hk hon
      rw [haddr]
      exact hholds.addresses k hk hon
    · intro henabled
      rw [hoff] at henabled
      cases henabled

end ShadowDrivers

/-- The loop of `disable_user_pmp` is that of `enable_user_pmp` with all octets
off. -/
def EPMP.disableFrom (mpuRegions i : ℕ) (pmp : EPMP) : Option EPMP := do
  let csr ← enableRegions (List.replicate mpuRegions off) i pmp.csr
  return { pmp with csr := csr, userPmpEnabled := false }

def KernelProtectionMMLEPMP.disableUserPmp (mpuRegions : ℕ) (pmp : EPMP) : Option EPMP :=
  pmp.disableFrom mpuRegions KernelProtectionMMLEPMP.torRegionsOffset

def EarlGreyEPMP.userDisableUserPmp (dbg : DebugConfig) (pmp : EPMP) : Option EPMP :=
  pmp.disableFrom dbg.torUserRegions (dbg.torUserEntriesOffset / 2)

theorem EPMP.disablesUser {mpuRegions count i : ℕ} (hfits : i + count ≤ 32) :
    DisablesUser (EPMP.disableFrom count i) mpuRegions := by
  intro pmp pmp' _ hrun
  obtain ⟨_, hcsr, -, haddr⟩ := exists_enableRegions (replicate count off) pmp.csr (show i +
      (replicate count off).length ≤ 32 by rwa [length_replicate])
  rw [EPMP.disableFrom, hcsr] at hrun
  cases hrun
  exact ⟨rfl, haddr, rfl⟩

theorem KernelProtectionMMLEPMP.entry_eq (i : ℕ) : (i + torRegionsOffset) * 2 = 2 + i * 2 := by
  unfold torRegionsOffset
  ring

theorem KernelProtectionMMLEPMP.disablesUser {mpuRegions : ℕ} (h : mpuRegions ≤ 31) :
    DisablesUser (disableUserPmp mpuRegions) mpuRegions := by
  apply EPMP.disablesUser
  unfold torRegionsOffset
  omega

theorem EarlGreyEPMP.disablesUser (dbg : DebugConfig) :
    DisablesUser (EarlGreyEPMP.userDisableUserPmp dbg) EarlGreyEPMP.torUserRegionsDebugDisable := by
  apply EPMP.disablesUser
  cases dbg <;> decide

def mmlEPMP {mpuRegions : ℕ} (h : mpuRegions ≤ 31) : TORUserPMP mpuRegions :=
  shadowPMP KernelProtectionMMLEPMP.entry_eq (KernelProtectionMMLEPMP.enablesFrom h)
    (KernelProtectionMMLEPMP.disablesUser h) (by omega)

def earlGreyEPMP (dbg : DebugConfig) : TORUserPMP EarlGreyEPMP.torUserRegionsDebugDisable :=
  shadowPMP (fun _ => rfl) (EarlGreyEPMP.enablesFrom dbg)
    (EarlGreyEPMP.disablesUser dbg) (by cases dbg <;> decide)

/-! ## The MPU and its configurations -/

variable {maxRegions : ℕ}

namespace PMPUserMPUConfig

/-- The calls that change a configuration, with any arguments, as long as they
return. -/
inductive Change (profile : Profile) (config : PMPUserMPUConfig maxRegions) :
    PMPUserMPUConfig maxRegions → Prop where
  | allocateRegion {start size minSize : ℕ} {permissions : Permissions}
      {outcome : Option (ℕ × ℕ) × PMPUserMPUConfig maxRegions}
      (h : Pmp.allocateRegion profile start size minSize permissions config =
        .ok outcome) : Change profile config outcome.2
  | removeMemoryRegion {start size : ℕ} {outcome : Except Unit Unit × PMPUserMPUConfig maxRegions}
      (h : Pmp.removeMemoryRegion profile start size config = .ok outcome) :
      Change profile config outcome.2
  | allocateAppMemoryRegion {start size minSize app kernel : ℕ} {permissions : Permissions}
      {outcome : Option (ℕ × ℕ) × PMPUserMPUConfig maxRegions}
      (h : Pmp.allocateAppMemoryRegion profile start size minSize app kernel
        permissions config = .ok outcome) : Change profile config outcome.2
  | updateAppMemoryRegion {app kernel : ℕ} {permissions : Permissions}
      {outcome : Except Unit Unit × PMPUserMPUConfig maxRegions}
      (h : Pmp.updateAppMemoryRegion profile app kernel permissions config =
        .ok outcome) : Change profile config outcome.2
  | resetConfig : Change profile config (Pmp.resetConfig config)

variable {config config' : PMPUserMPUConfig maxRegions} {profile : Profile}

structure Kept (config config' : PMPUserMPUConfig maxRegions) : Prop where
  id : config'.id = config.id
  dirty : config' = config ∨ config'.isDirty = true

theorem Kept.refl (config : PMPUserMPUConfig maxRegions) : config.Kept config := ⟨rfl, .inl rfl⟩

variable {start : ℕ} {permissions : Permissions}

variable {outcome : Option (ℕ × ℕ) × PMPUserMPUConfig maxRegions}

theorem kept_allocateRegion {size minSize : ℕ}
    (h : Pmp.allocateRegion profile start size minSize permissions config = .ok outcome) :
    config.Kept outcome.2 := by
  unfold Pmp.allocateRegion at h
  split at h
  · cases h
    exact .refl config
  obtain ⟨start, -, h⟩ := of_bind_ok h
  obtain ⟨size, -, h⟩ := of_bind_ok h
  obtain ⟨_, -, h⟩ := of_bind_ok h
  obtain ⟨_, -, h⟩ := of_bind_ok h
  obtain ⟨exceeding, -, h⟩ := of_bind_ok h
  cases exceeding with
  | true =>
    cases h
    exact .refl config
  | false =>
    obtain ⟨found, -, h⟩ := of_bind_ok h
    cases found with
    | true =>
      cases h
      exact .refl config
    | false =>
      cases h
      exact ⟨rfl, .inr rfl⟩

theorem kept_removeMemoryRegion {size : ℕ}
    {outcome : Except Unit Unit × PMPUserMPUConfig maxRegions}
    (h : Pmp.removeMemoryRegion profile start size config = .ok outcome) :
    config.Kept outcome.2 := by
  obtain ⟨found, -, h⟩ := of_bind_ok h
  cases found with
  | none =>
    cases h
    exact .refl config
  | some index =>
    cases h
    exact ⟨rfl, .inr rfl⟩

theorem kept_allocateAppMemoryRegion {size minSize app kernel : ℕ}
    (h : Pmp.allocateAppMemoryRegion profile start size minSize app kernel permissions config =
      .ok outcome) : config.Kept outcome.2 := by
  unfold Pmp.allocateAppMemoryRegion at h
  split at h
  · cases h
    exact .refl config
  split at h
  · cases h
    exact .refl config
  obtain ⟨start, -, h⟩ := of_bind_ok h
  obtain ⟨size, -, h⟩ := of_bind_ok h
  obtain ⟨_, -, h⟩ := of_bind_ok h
  obtain ⟨_, -, h⟩ := of_bind_ok h
  obtain ⟨_, -, h⟩ := of_bind_ok h
  split at h
  · cases h
    exact .refl config
  obtain ⟨found, -, h⟩ := of_bind_ok h
  cases found with
  | true =>
    cases h
    exact .refl config
  | false =>
    obtain ⟨_, -, h⟩ := of_bind_ok h
    cases h
    exact ⟨rfl, .inr rfl⟩

theorem kept_updateAppMemoryRegion {app kernel : ℕ}
    {outcome : Except Unit Unit × PMPUserMPUConfig maxRegions}
    (h : Pmp.updateAppMemoryRegion profile app kernel permissions config = .ok outcome) :
    config.Kept outcome.2 := by
  unfold Pmp.updateAppMemoryRegion at h
  split at h
  · cases h
    exact .refl config
  obtain ⟨_, -, h⟩ := of_bind_ok h
  split at h
  · cases h
    exact .refl config
  · cases h
    exact ⟨rfl, .inr rfl⟩

theorem Change.kept (h : config.Change profile config') : config.Kept config' := by
  cases h with
  | allocateRegion h => exact kept_allocateRegion h
  | removeMemoryRegion h => exact kept_removeMemoryRegion h
  | allocateAppMemoryRegion h => exact kept_allocateAppMemoryRegion h
  | updateAppMemoryRegion h => exact kept_updateAppMemoryRegion h
  | resetConfig => exact ⟨rfl, .inr rfl⟩

end PMPUserMPUConfig

/-- `PMPUserMPU`, its PMP and the configurations made so far. -/
structure UserMpuSystem (P : TORUserPMP maxRegions) where
  configCount : ℕ
  lastConfiguredFor : Option ℕ
  pmp : P.State
  configs : List (PMPUserMPUConfig maxRegions)

namespace UserMpuSystem

variable {P : TORUserPMP maxRegions}

def new (pmp : P.State) : UserMpuSystem P := ⟨1, none, pmp, []⟩

/-- `configure_mpu` for the configuration with index `k`; the result of
`configure_pmp` is unwrapped. -/
def configureMpu (s : UserMpuSystem P) (k : ℕ)
    (config : PMPUserMPUConfig maxRegions) : Option (UserMpuSystem P) :=
  if s.lastConfiguredFor ≠ some config.id ∨ config.isDirty then
    match P.configurePmp (List.ofFn config.regions) s.pmp with
    | some (.ok (), pmp) =>
      some { s with
        pmp := pmp
        lastConfiguredFor := some config.id
        configs := s.configs.set k { config with isDirty := false } }
    | _ => none
  else some s

inductive Step (profile : Profile) (s : UserMpuSystem P) : UserMpuSystem P → Prop where
  | newConfig {config : PMPUserMPUConfig maxRegions} {count : ℕ}
      (h : Pmp.newConfig maxRegions s.configCount = some (config, count)) : Step profile s
        { s with configCount := count, configs := s.configs ++ [config] }
  | change {k : ℕ} {config config' : PMPUserMPUConfig maxRegions}
      (hk : s.configs[k]? = some config) (h : config.Change profile config') :
      Step profile s { s with configs := s.configs.set k config' }
  | configureMpu {k : ℕ} {config : PMPUserMPUConfig maxRegions}
      {s' : UserMpuSystem P} (hk : s.configs[k]? = some config)
      (h : s.configureMpu k config = some s') : Step profile s s'
  | enableAppMpu {pmp : P.State} (h : P.enableUserPmp s.pmp = some (.ok (), pmp)) :
      Step profile s { s with pmp := pmp }
  | disableAppMpu {pmp : P.State} (h : P.disableUserPmp s.pmp = some pmp) :
      Step profile s { s with pmp := pmp }

def Reachable (profile : Profile) (s : UserMpuSystem P) : Prop :=
  ∃ pmp, P.Valid pmp ∧ Relation.ReflTransGen (Step profile) (new pmp) s

def view : LazyWrite.View (PMPUserMPUConfig maxRegions) ℕ (List PmpRegion) :=
  ⟨PMPUserMPUConfig.id, PMPUserMPUConfig.isDirty, fun config => List.ofFn config.regions⟩

def toLazy (s : UserMpuSystem P) : LazyWrite.State (PMPUserMPUConfig maxRegions) ℕ P.State :=
  ⟨s.configs, s.lastConfiguredFor, s.pmp⟩

structure Matches (s : UserMpuSystem P) : Prop where
  valid : P.Valid s.pmp
  id_lt : ∀ config ∈ s.configs, config.id < s.configCount
  coherent : LazyWrite.Coherent view P.Holds s.toLazy

namespace Matches

variable {s s' : UserMpuSystem P} {profile : Profile} {k : ℕ}
  {config config' : PMPUserMPUConfig maxRegions}

theorem new {pmp : P.State} (h : P.Valid pmp) :
    (UserMpuSystem.new pmp : UserMpuSystem P).Matches where
  valid := h
  id_lt := forall_mem_nil _
  coherent := .initial pmp

theorem newConfig (h : s.Matches) {count : ℕ}
    (hnew : Pmp.newConfig maxRegions s.configCount = some (config, count)) :
    ({ s with
      configCount := count
      configs := s.configs ++ [config] } : UserMpuSystem P).Matches := by
  unfold Pmp.newConfig at hnew
  split at hnew
  · cases hnew
    refine ⟨h.valid, ?_, h.coherent.add (fun d hd => (h.id_lt d hd).ne) rfl⟩
    intro c hc
    rcases mem_append.mp hc with hold | hnew
    · exact (h.id_lt c hold).trans (Nat.lt_succ_self _)
    · rw [mem_singleton.mp hnew]
      exact Nat.lt_succ_self _
  · cases hnew

theorem id_lt_set (h : s.Matches) (hk : s.configs[k]? = some config)
    (hid : config'.id = config.id) : ∀ c ∈ s.configs.set k config', c.id < s.configCount := by
  intro c hc
  rcases mem_or_eq_of_mem_set hc with hold | rfl
  · exact h.id_lt c hold
  · rw [hid]
    exact h.id_lt config (mem_of_getElem? hk)

theorem configureMpu (h : s.Matches) (hk : s.configs[k]? = some config)
    (hrun : s.configureMpu k config = some s') :
    s'.Matches ∧ P.Holds s'.pmp (ofFn config.regions) := by
  unfold UserMpuSystem.configureMpu at hrun
  split at hrun
  · cases hconfigure : P.configurePmp (ofFn config.regions) s.pmp with
    | none =>
      simp only [hconfigure] at hrun
      cases hrun
    | some outcome =>
      obtain ⟨result, _⟩ := outcome
      cases result with
      | error e =>
        simp only [hconfigure] at hrun
        cases hrun
      | ok value =>
        simp only [hconfigure] at hrun
        cases hrun
        obtain ⟨hvalid, hholds⟩ := P.configure_holds h.valid (length_ofFn) hconfigure
        have hid : view.id { config with isDirty := false } = view.id config := rfl
        exact ⟨⟨hvalid, h.id_lt_set hk rfl, h.coherent.write hk hid hholds⟩, hholds⟩
  · rename_i hskip
    cases hrun
    rw [not_or, not_not] at hskip
    exact ⟨h, h.coherent.holds config (mem_of_getElem? hk) hskip.1 (Bool.not_eq_true _ ▸ hskip.2)⟩

theorem step (h : s.Matches) (hstep : Step profile s s') : s'.Matches := by
  cases hstep with
  | newConfig hnew => exact h.newConfig hnew
  | change hk hchange =>
    exact ⟨h.valid, h.id_lt_set hk hchange.kept.id,
      h.coherent.change hk hchange.kept.id hchange.kept.dirty⟩
  | configureMpu hk hrun => exact (h.configureMpu hk hrun).1
  | enableAppMpu hrun =>
    obtain ⟨hvalid, hkeeps⟩ := P.enable_holds h.valid hrun
    exact ⟨hvalid, h.id_lt, h.coherent.operate hkeeps⟩
  | disableAppMpu hrun =>
    obtain ⟨hvalid, hkeeps⟩ := P.disable_holds h.valid hrun
    exact ⟨hvalid, h.id_lt, h.coherent.operate hkeeps⟩

theorem of_reachable (h : s.Reachable profile) : s.Matches := by
  obtain ⟨_, hvalid, hrun⟩ := h
  induction hrun with
  | refl => exact .new hvalid
  | tail _ hstep ih => exact ih.step hstep

end Matches

end UserMpuSystem

/-- Whatever was configured and changed before, after `configure_mpu` the
protection unit holds the regions of the configuration, on Cortex-M and over any
PMP. -/
theorem mpu_hardware_matches :
    (∀ (g : CortexM.Geometry) (profile : Profile) (s : CortexM.MpuSystem g),
      s.Reachable profile → ∀ k config, s.configs[k]? = some config →
      (s.configureMpu k config).registers.Holds config.regions) ∧
    (∀ (maxRegions : ℕ) (P : TORUserPMP maxRegions) (profile : Profile)
      (s : UserMpuSystem P), s.Reachable profile → ∀ k config s',
      s.configs[k]? = some config → s.configureMpu k config = some s' →
      P.Holds s'.pmp (List.ofFn config.regions)) := by
  constructor
  · intro g profile s hreachable k config hk
    exact ((CortexM.MpuSystem.Matches.of_reachable hreachable).configureMpu hk).2
  · intro maxRegions P profile s hreachable k config s' hk hrun
    exact ((UserMpuSystem.Matches.of_reachable hreachable).configureMpu hk hrun).2

def freshConfig (maxRegions id : ℕ) : PMPUserMPUConfig maxRegions :=
  ⟨id, true, fun _ => offRegion, none⟩

/-- Two configurations, of which the first has been changed. -/
def twoConfigs (P : TORUserPMP maxRegions) (pmp : P.State)
    (changed : PMPUserMPUConfig maxRegions) : UserMpuSystem P :=
  ⟨3, none, pmp, [changed, freshConfig maxRegions 2]⟩

theorem reachable_twoConfigs {P : TORUserPMP maxRegions} {pmp : P.State} (hvalid : P.Valid pmp)
    {changed : PMPUserMPUConfig maxRegions} (h : (freshConfig maxRegions 1).Change .dev changed) :
    (twoConfigs P pmp changed).Reachable .dev := by
  let first := freshConfig maxRegions 1
  let s : UserMpuSystem P := ⟨3, none, pmp, [first, freshConfig maxRegions 2]⟩
  have hfirst : s.configs[0]? = some first := rfl
  exact ⟨pmp, hvalid, .tail (.tail (.single (.newConfig rfl)) (.newConfig rfl)) (.change hfirst h)⟩

def UserMpuSystem.configureAll {P : TORUserPMP maxRegions} (s : UserMpuSystem P) :
    List ℕ → Option (UserMpuSystem P)
  | [] => some s
  | k :: ks => do
    let config ← s.configs[k]?
    let s' ← s.configureMpu k config
    s'.configureAll ks

theorem UserMpuSystem.Reachable.configureAll {P : TORUserPMP maxRegions} {profile : Profile}
    {s s' : UserMpuSystem P} {ks : List ℕ} (h : s.Reachable profile)
    (hrun : s.configureAll ks = some s') : s'.Reachable profile := by
  induction ks generalizing s with
  | nil =>
    cases hrun
    exact h
  | cons k ks ih =>
    obtain ⟨config, hk, hrun⟩ := Option.bind_eq_some_iff.mp hrun
    obtain ⟨s1, hconfigure, hrun⟩ := Option.bind_eq_some_iff.mp hrun
    obtain ⟨pmp, hvalid, hsteps⟩ := h
    exact ih ⟨pmp, hvalid, hsteps.tail (.configureMpu hk hconfigure)⟩ hrun

/-- The first of two configurations is given a region, and the first, the second
and the first are configured. Configuring the first once more writes nothing. -/
structure ConfiguresAgain (P : TORUserPMP maxRegions) (pmp : P.State)
    (changed config : PMPUserMPUConfig maxRegions) (s : UserMpuSystem P) : Prop where
  allocated : Pmp.allocateRegion .dev 0x20000000 1024 1024 .readWriteOnly
    (freshConfig maxRegions 1) = .ok (some (0x20000000, 1024), changed)
  configured : (twoConfigs P pmp changed).configureAll [0, 1, 0] = some s
  stored : s.configs[0]? = some config
  regions : config.regions = changed.regions
  cached : s.configureMpu 0 config = some s

theorem ConfiguresAgain.reachable {P : TORUserPMP maxRegions} {pmp : P.State}
    {changed config : PMPUserMPUConfig maxRegions} {s : UserMpuSystem P} (hvalid : P.Valid pmp)
    (h : ConfiguresAgain P pmp changed config s) : s.Reachable .dev :=
  (reachable_twoConfigs hvalid (.allocateRegion h.allocated)).configureAll h.configured

def HoldsAgain (P : TORUserPMP maxRegions) (pmp : P.State) : Prop :=
  ∃ changed config s, ConfiguresAgain P pmp changed config s ∧
    P.Holds s.pmp (List.ofFn config.regions)

/-- The same calls on Cortex-M. -/
def configuredAgain (changed : CortexM.CortexMConfig CortexM.cortexM4) :
    CortexM.MpuSystem CortexM.cortexM4 :=
  let second := CortexM.freshConfig CortexM.cortexM4 2
  let s : CortexM.MpuSystem CortexM.cortexM4 :=
    ⟨3, none, ⟨0, fun _ => 0, fun _ => 0⟩, [changed, second]⟩
  ((s.configureMpu 0 changed).configureMpu 1 second).configureMpu 0
    { changed with isDirty := false }

theorem reachable_configuredAgain {changed : CortexM.CortexMConfig CortexM.cortexM4}
    (h : (CortexM.freshConfig CortexM.cortexM4 1).Change .dev changed) :
    (configuredAgain changed).Reachable .dev := by
  let first := CortexM.freshConfig CortexM.cortexM4 1
  let s : CortexM.MpuSystem CortexM.cortexM4 :=
    ⟨3, none, ⟨0, fun _ => 0, fun _ => 0⟩, [first, CortexM.freshConfig CortexM.cortexM4 2]⟩
  have hfirst : s.configs[0]? = some first := rfl
  refine ⟨s.registers,
    .tail (.tail (.tail ?_ (.configureMpu rfl)) (.configureMpu rfl)) (.configureMpu ?_)⟩
  · exact .tail (.tail (.single (.newConfig rfl)) (.newConfig rfl)) (.change hfirst h)
  · have hsecond : (CortexM.freshConfig CortexM.cortexM4 2).isDirty = true := rfl
    simp [CortexM.MpuSystem.configureMpu, hsecond]

theorem mpu_hardware_matches_small :
    (∃ changed config, CortexM.allocateRegion .dev 0x20000000 1024 1024 .readWriteOnly
        (CortexM.freshConfig CortexM.cortexM4 1) = .ok (some (0x20000000, 1024), changed) ∧
      (configuredAgain changed).configs[0]? = some config ∧
      config.regions = changed.regions ∧
      (configuredAgain changed).configureMpu 0 config = configuredAgain changed ∧
      ((configuredAgain changed).configureMpu 0 config).registers.Holds config.regions) ∧
    HoldsAgain (plainPMP (show 1 ≤ 32 by decide)) clearedCsr ∧
    HoldsAgain (mmlEPMP (show 1 ≤ 31 by decide)) (⟨false, [off], clearedCsr⟩ : EPMP) ∧
    HoldsAgain (earlGreyEPMP .enable) (⟨false, [off, off, off, off], clearedCsr⟩ : EPMP) := by
  obtain ⟨hcortex, hpmp⟩ := mpu_hardware_matches
  have hagain {n : ℕ} (P : TORUserPMP n) (pmp : P.State) (hvalid : P.Valid pmp)
      (hruns : ∃ changed config s, ConfiguresAgain P pmp changed config s) :
      HoldsAgain P pmp := by
    obtain ⟨changed, config, s, h⟩ := hruns
    exact ⟨changed, config, s, h, hpmp n P .dev s (h.reachable hvalid) 0 config s h.stored h.cached⟩
  refine ⟨⟨_, _, rfl, rfl, rfl, rfl, ?_⟩, ?_, ?_, ?_⟩
  · refine hcortex _ .dev (configuredAgain _) (reachable_configuredAgain ?_) 0 _ rfl
    exact .allocateRegion (show CortexM.allocateRegion .dev 0x20000000 1024 1024 .readWriteOnly _ =
      .ok (_, _) from rfl)
  · exact hagain _ _ trivial ⟨_, _, _, rfl, rfl, rfl, rfl, rfl⟩
  · exact hagain _ _ rfl ⟨_, _, _, rfl, rfl, rfl, rfl, rfl⟩
  · exact hagain _ _ rfl ⟨_, _, _, rfl, rfl, rfl, rfl, rfl⟩

end TockKernel.Pmp

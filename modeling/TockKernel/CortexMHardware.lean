import TockKernel.LazyWrite
import TockKernel.CortexMAppUpdate

/-!
# What the Cortex-M MPU holds

`configure_mpu` writes the regions of a configuration to the MPU unless the MPU
was last configured for it and it has not changed since. A write to RBAR with
the VALID bit selects the region in its REGION field, so the registers end up in
the right place because every region carries its own number.
-/

namespace TockKernel.CortexM

open Arithmetic Word CortexMRegion Function List
open BitVec (ofNat toNat toNat_ofNat)

variable {g : Geometry}

/-! ## The registers -/

/-- The region number register, and base address and attributes of each
region. -/
structure MpuRegisters where
  rnr : BitVec 4
  base : BitVec 4 → BitVec 27
  attributes : BitVec 4 → BitVec 32

namespace MpuRegisters

def writeRbar (value : BitVec 32) (registers : MpuRegisters) : MpuRegisters :=
  let selected := if value.getLsbD 4 then value.extractLsb' 0 4
    else registers.rnr
  { registers with
    rnr := selected
    base := Function.update registers.base selected (value.extractLsb' 5 27) }

def writeRasr (value : BitVec 32) (registers : MpuRegisters) : MpuRegisters :=
  { registers with
    attributes := Function.update registers.attributes registers.rnr value }

def writeRegion (region : CortexMRegion) (registers : MpuRegisters) : MpuRegisters :=
  (registers.writeRbar region.baseAddress).writeRasr region.attributes

/-- The loop of `configure_mpu`. -/
def writeRegions (regions : List CortexMRegion) (registers : MpuRegisters) : MpuRegisters :=
  regions.foldl (fun registers region => registers.writeRegion region) registers

def Holds (registers : MpuRegisters) (regions : Fin g.numRegions → CortexMRegion) : Prop :=
  ∀ i : Fin g.numRegions, registers.base (BitVec.ofNat 4 i) =
        (regions i).baseAddress.extractLsb' 5 27 ∧
      registers.attributes (BitVec.ofNat 4 i) = (regions i).attributes

end MpuRegisters

/-- The base address selects the region `number`. -/
structure CortexMRegion.Numbered (r : CortexMRegion) (number : ℕ) : Prop where
  valid : r.baseAddress.getLsbD 4 = true
  region : r.baseAddress.extractLsb' 0 4 = BitVec.ofNat 4 number

theorem getLsbD_four_base (start : BitVec 27) (number : BitVec 4) :
    (place 32 5 start ||| place 32 4 1#1 ||| place 32 0 number).getLsbD 4 := by
  simp [place]

theorem extractLsb_base (start : BitVec 27) (number : BitVec 4) :
    (place 32 5 start ||| place 32 4 1#1 ||| place 32 0 number).extractLsb' 0 4 = number := by
  simp [BitVec.extractLsb'_or, extractLsb_place, extractLsb_place_of_apart]

theorem CortexMRegion.numbered_empty (number : ℕ) : (empty number).Numbered number where
  valid := by simp [empty, place]
  region := by
    simp [empty, BitVec.extractLsb'_or, extractLsb_place, extractLsb_place_of_apart]

theorem CortexMRegion.numbered_of_new {profile : Profile}
    {logicalStart logicalSize start size number : ℕ}
    {subregions : Option (ℕ × ℕ)} {permissions : Permissions} {r : CortexMRegion}
    (h : new profile logicalStart logicalSize start size number
      subregions permissions = .ok r) : r.Numbered number := by
  obtain ⟨_, -, h⟩ := of_bind_ok h
  cases subregions with
  | none =>
    cases h
    exact ⟨getLsbD_four_base _ _, extractLsb_base _ _⟩
  | some bounds =>
    obtain ⟨_, -, h⟩ := of_bind_ok h
    cases h
    exact ⟨getLsbD_four_base _ _, extractLsb_base _ _⟩

namespace MpuRegisters

theorem writeRegion_eq {region : CortexMRegion} {number : ℕ}
    (h : region.Numbered number) (registers : MpuRegisters) : registers.writeRegion region =
      { rnr := ofNat 4 number
        base := update registers.base (ofNat 4 number)
          (region.baseAddress.extractLsb' 5 27)
        attributes := update registers.attributes
          (ofNat 4 number) region.attributes } := by
  unfold writeRegion writeRbar writeRasr
  simp [h.valid, h.region]

theorem writeRegions_holds {regions : Fin g.numRegions → CortexMRegion}
    (h : ∀ i, (regions i).Numbered i) (registers : MpuRegisters) :
    (registers.writeRegions ((finRange g.numRegions).map regions)).Holds regions := by
  have hdistinct : ∀ i j : Fin g.numRegions, ofNat 4 i.val = ofNat 4 j.val → i = j := by
    intro i j heq
    have hle := g.numRegions_le
    have hnat := congrArg toNat heq
    rw [toNat_ofNat, toNat_ofNat, Nat.mod_eq_of_lt (by omega), Nat.mod_eq_of_lt (by omega)] at hnat
    exact Fin.ext hnat
  have hinduct : ∀ (numbers : List (Fin g.numRegions))
      (registers : MpuRegisters) (i : Fin g.numRegions), (i ∈ numbers ∨
        registers.base (ofNat 4 i) = (regions i).baseAddress.extractLsb' 5 27 ∧
          registers.attributes (ofNat 4 i) = (regions i).attributes) →
      (registers.writeRegions (numbers.map regions)).base (ofNat 4 i) =
          (regions i).baseAddress.extractLsb' 5 27 ∧
        (registers.writeRegions (numbers.map regions)).attributes
          (ofNat 4 i) = (regions i).attributes := by
    intro numbers
    induction numbers with
    | nil =>
      intro registers i hi
      exact hi.resolve_left not_mem_nil
    | cons number rest ih =>
      intro registers i hi
      apply ih (registers.writeRegion (regions number)) i
      rw [writeRegion_eq (h number)]
      by_cases heq : i = number
      · subst heq
        exact .inr ⟨update_self _ _ _, update_self _ _ _⟩
      have hne : ofNat 4 i.val ≠ ofNat 4 number.val := fun hsame => heq (hdistinct i number hsame)
      rcases hi with hmem | hheld
      · exact .inl ((mem_cons.mp hmem).resolve_left heq)
      · exact .inr ⟨(update_of_ne hne _ _).trans hheld.1, (update_of_ne hne _ _).trans hheld.2⟩
  intro i
  exact hinduct _ registers i (.inl (mem_finRange i))

end MpuRegisters

/-! ## Changes of a configuration -/

namespace CortexMConfig

def Numbered (config : CortexMConfig g) : Prop :=
  ∀ i, (config.regions i).Numbered i

/-- The calls that change a configuration, with any arguments, as long as they
return. -/
inductive Change (profile : Profile) (config : CortexMConfig g) : CortexMConfig g → Prop where
  | allocateRegion {start size minSize : ℕ} {permissions : Permissions}
      {outcome : Option (ℕ × ℕ) × CortexMConfig g}
      (h : CortexM.allocateRegion profile start size minSize permissions
        config = .ok outcome) : Change profile config outcome.2
  | removeMemoryRegion (region : ℕ × ℕ) :
      Change profile config (CortexM.removeMemoryRegion region config).2
  | allocateAppMemoryRegion {start size minSize app kernel : ℕ} {permissions : Permissions}
      {outcome : Option (ℕ × ℕ) × CortexMConfig g}
      (h : CortexM.allocateAppMemoryRegion profile start size minSize app
        kernel permissions config = .ok outcome) :
      Change profile config outcome.2
  | updateAppMemoryRegion {app kernel : ℕ} {permissions : Permissions}
      {outcome : Except Unit Unit × CortexMConfig g}
      (h : CortexM.updateAppMemoryRegion profile app kernel permissions
        config = .ok outcome) : Change profile config outcome.2
  | resetConfig : Change profile config (CortexM.resetConfig config)

variable {config config' : CortexMConfig g} {profile : Profile}

/-- What a change keeps: the identifier and the numbers, and it is visible in
the flag. -/
structure Kept (config config' : CortexMConfig g) : Prop where
  id : config'.id = config.id
  dirty : config' = config ∨ config'.isDirty = true
  numbered : config.Numbered → config'.Numbered

theorem Kept.refl (config : CortexMConfig g) : config.Kept config := ⟨rfl, .inl rfl, fun h => h⟩

theorem kept_setRegion {i : Fin g.numRegions} {r : CortexMRegion}
    (hr : r.Numbered i) : config.Kept (config.setRegion i r) where
  id := rfl
  dirty := .inr rfl
  numbered := by
    intro h j
    by_cases heq : j = i
    · subst heq
      simpa only [setRegion, update_self] using hr
    · simpa only [setRegion, update_of_ne heq] using h j

variable {start : ℕ} {permissions : Permissions}

theorem kept_setAppRegions {profile : Profile} {size num : ℕ}
    {regions : CortexMRegion × CortexMRegion}
    (h : appRegions profile start size num permissions = .ok regions) :
    config.Kept (config.setAppRegions regions.1 regions.2) := by
  have hnumbered : regions.1.Numbered g.region0 ∧ regions.2.Numbered g.region1 := by
    obtain ⟨_, -, h⟩ := of_bind_ok h
    obtain ⟨_, hr0, h⟩ := of_bind_ok h
    have hzero := numbered_of_new hr0
    split at h
    · cases h
      exact ⟨hzero, numbered_empty 1⟩
    obtain ⟨_, -, h⟩ := of_bind_ok h
    obtain ⟨_, hr1, h⟩ := of_bind_ok h
    cases h
    exact ⟨hzero, numbered_of_new hr1⟩
  refine ⟨rfl, .inr rfl, ?_⟩
  intro hcfg
  exact (kept_setRegion hnumbered.2).numbered ((kept_setRegion hnumbered.1).numbered hcfg)

variable {outcome : Option (ℕ × ℕ) × CortexMConfig g}

theorem kept_allocateRegion {size minSize : ℕ}
    (h : CortexM.allocateRegion profile start size minSize permissions config = .ok outcome) :
    config.Kept outcome.2 := by
  obtain ⟨found, -, h⟩ := of_bind_ok h
  cases found with
  | true =>
    cases h
    exact .refl config
  | false =>
    cases hunused : config.unusedRegionNumber with
    | none =>
      simp only [hunused] at h
      cases h
      exact .refl config
    | some i =>
      simp only [hunused] at h
      obtain ⟨_, -, h⟩ := of_bind_ok h
      obtain ⟨_, -, h⟩ := of_bind_ok h
      obtain ⟨_, -, h⟩ := of_bind_ok h
      split at h
      · cases h
        exact .refl config
      obtain ⟨r, hr, h⟩ := of_bind_ok h
      cases h
      exact kept_setRegion (numbered_of_new hr)

theorem kept_removeMemoryRegion (region : ℕ × ℕ) :
    config.Kept (CortexM.removeMemoryRegion region config).2 := by
  unfold CortexM.removeMemoryRegion
  split
  · exact .refl config
  split
  · exact .refl config
  · exact kept_setRegion (numbered_empty _)

theorem kept_allocateAppMemoryRegion {size minSize app kernel : ℕ}
    (h : CortexM.allocateAppMemoryRegion profile start size minSize app kernel permissions config =
      .ok outcome) : config.Kept outcome.2 := by
  obtain ⟨found, -, h⟩ := of_bind_ok h
  cases found with
  | true =>
    cases h
    exact .refl config
  | false =>
    obtain ⟨po2, -, h⟩ := of_bind_ok h
    cases po2 with
    | none =>
      cases h
      exact .refl config
    | some po2 =>
      obtain ⟨_, -, h⟩ := of_bind_ok h
      obtain ⟨_, -, h⟩ := of_bind_ok h
      obtain ⟨_, -, h⟩ := of_bind_ok h
      split at h
      · cases h
        exact .refl config
      obtain ⟨_, hregions, h⟩ := of_bind_ok h
      cases h
      exact kept_setAppRegions hregions

theorem Change.kept (h : config.Change profile config') : config.Kept config' := by
  cases h with
  | allocateRegion h => exact kept_allocateRegion h
  | removeMemoryRegion region => exact kept_removeMemoryRegion region
  | allocateAppMemoryRegion h => exact kept_allocateAppMemoryRegion h
  | updateAppMemoryRegion h =>
    obtain hsame | ⟨_, _, _, _, -, hregions, hset⟩ := updateAppMemoryRegion_cases h
    · rw [hsame]
      exact .refl config
    · rw [hset]
      exact kept_setAppRegions hregions
  | resetConfig =>
    exact ⟨rfl, .inr rfl, fun _ i => numbered_empty i⟩

end CortexMConfig

/-! ## The MPU and its configurations -/

/-- The MPU driver, the hardware and the configurations made so far. -/
structure MpuSystem (g : Geometry) where
  configCount : ℕ
  hardwareIsConfiguredFor : Option ℕ
  registers : MpuRegisters
  configs : List (CortexMConfig g)

namespace MpuSystem

/-- `MPU::new`, whatever the registers hold. -/
def new (registers : MpuRegisters) : MpuSystem g := ⟨1, none, registers, []⟩

def configureMpu (s : MpuSystem g) (k : ℕ) (config : CortexMConfig g) : MpuSystem g :=
  if s.hardwareIsConfiguredFor ≠ some config.id ∨ config.isDirty then
    { s with
      registers := s.registers.writeRegions ((List.finRange g.numRegions).map config.regions)
      hardwareIsConfiguredFor := some config.id
      configs := s.configs.set k { config with isDirty := false } }
  else s

inductive Step (profile : Profile) (s : MpuSystem g) : MpuSystem g → Prop where
  | newConfig {config : CortexMConfig g} {count : ℕ}
      (h : CortexM.newConfig g s.configCount = some (config, count)) : Step profile s
        { s with configCount := count, configs := s.configs ++ [config] }
  | change {k : ℕ} {config config' : CortexMConfig g} (hk : s.configs[k]? = some config)
      (h : config.Change profile config') :
      Step profile s { s with configs := s.configs.set k config' }
  | configureMpu {k : ℕ} {config : CortexMConfig g} (hk : s.configs[k]? = some config) :
      Step profile s (s.configureMpu k config)

def Reachable (profile : Profile) (s : MpuSystem g) : Prop :=
  ∃ registers, Relation.ReflTransGen (Step profile) (new registers) s

def view : LazyWrite.View (CortexMConfig g) ℕ (Fin g.numRegions → CortexMRegion) :=
  ⟨CortexMConfig.id, CortexMConfig.isDirty, CortexMConfig.regions⟩

def toLazy (s : MpuSystem g) : LazyWrite.State (CortexMConfig g) ℕ MpuRegisters :=
  ⟨s.configs, s.hardwareIsConfiguredFor, s.registers⟩

/-- Identifiers come from the counter, regions select their slots and the
hardware holds what need not be written again. -/
structure Matches (s : MpuSystem g) : Prop where
  id_lt : ∀ config ∈ s.configs, config.id < s.configCount
  numbered : ∀ config ∈ s.configs, config.Numbered
  coherent : LazyWrite.Coherent view MpuRegisters.Holds s.toLazy

namespace Matches

variable {s s' : MpuSystem g} {profile : Profile} {k : ℕ}
  {config config' : CortexMConfig g}

theorem new (registers : MpuRegisters) : (MpuSystem.new registers : MpuSystem g).Matches where
  id_lt := forall_mem_nil _
  numbered := forall_mem_nil _
  coherent := .initial registers

theorem newConfig (h : s.Matches) {count : ℕ}
    (hnew : CortexM.newConfig g s.configCount = some (config, count)) :
    ({ s with
      configCount := count
      configs := s.configs ++ [config] } : MpuSystem g).Matches := by
  unfold CortexM.newConfig at hnew
  split at hnew
  · cases hnew
    refine ⟨?_, ?_, ?_⟩
    · intro c hc
      rcases mem_append.mp hc with hold | hnew
      · exact (h.id_lt c hold).trans (Nat.lt_succ_self _)
      · rw [mem_singleton.mp hnew]
        exact Nat.lt_succ_self _
    · intro c hc
      rcases mem_append.mp hc with hold | hnew
      · exact h.numbered c hold
      · rw [mem_singleton.mp hnew]
        exact fun i => numbered_empty i
    · refine h.coherent.add ?_ rfl
      intro d hd
      exact (h.id_lt d hd).ne
  · cases hnew

theorem mem_set {c : CortexMConfig g} (hc : c ∈ s.configs.set k config') :
    c ∈ s.configs ∨ c = config' :=
  mem_or_eq_of_mem_set hc

theorem change (h : s.Matches) (hk : s.configs[k]? = some config)
    (hchange : config.Change profile config') :
    ({ s with configs := s.configs.set k config' } : MpuSystem g).Matches := by
  have hkept := hchange.kept
  have hmem := mem_of_getElem? hk
  refine ⟨?_, ?_, h.coherent.change hk hkept.id hkept.dirty⟩
  · intro c hc
    rcases mem_set hc with hold | rfl
    · exact h.id_lt c hold
    · rw [hkept.id]
      exact h.id_lt config hmem
  · intro c hc
    rcases mem_set hc with hold | rfl
    · exact h.numbered c hold
    · exact hkept.numbered (h.numbered config hmem)

theorem configureMpu (h : s.Matches) (hk : s.configs[k]? = some config) :
    (s.configureMpu k config).Matches ∧
      (s.configureMpu k config).registers.Holds config.regions := by
  have hmem := mem_of_getElem? hk
  unfold MpuSystem.configureMpu
  split
  · have hholds := s.registers.writeRegions_holds (h.numbered config hmem)
    have hid : view.id { config with isDirty := false } = view.id config := rfl
    refine ⟨⟨?_, ?_, h.coherent.write hk hid hholds⟩, hholds⟩
    · intro c hc
      rcases mem_set hc with hold | rfl
      · exact h.id_lt c hold
      · exact h.id_lt config hmem
    · intro c hc
      rcases mem_set hc with hold | rfl
      · exact h.numbered c hold
      · exact h.numbered config hmem
  · rename_i hskip
    rw [not_or, not_not] at hskip
    exact ⟨h, h.coherent.holds config hmem hskip.1 (Bool.not_eq_true _ ▸ hskip.2)⟩

theorem step (h : s.Matches) (hstep : Step profile s s') : s'.Matches := by
  cases hstep with
  | newConfig hnew => exact h.newConfig hnew
  | change hk hchange => exact h.change hk hchange
  | configureMpu hk => exact (h.configureMpu hk).1

/-- In every reachable state the hardware holds what is not written again. -/
theorem of_reachable (h : s.Reachable profile) : s.Matches := by
  obtain ⟨registers, hrun⟩ := h
  induction hrun with
  | refl => exact .new registers
  | tail _ hstep ih => exact ih.step hstep

end Matches

end MpuSystem

end TockKernel.CortexM

import TockKernel.Pmp.UserMpu

/-!
# What `PMPUserMPU` promises the kernel

Regions that are handed out end at multiples of four, lie in the stretch they
were asked for and share no byte with another active region, and the slot of the
process memory stays in use. Two calls can break this: `remove_memory_region`
does not look whether the region is the one of the process memory, and
`update_app_memory_region` does not look at the other regions.
-/

namespace TockKernel.Pmp

open Arithmetic
open TORUserPMPCFG (off)
open Function PMPUserMPUConfig TORUserPMPCFG

variable {maxRegions : ℕ}

namespace PmpRegion

def Active (region : PmpRegion) : Prop := region.cfg ≠ off

def Contains (region : PmpRegion) (address : ℕ) : Prop :=
  region.start ≤ address ∧ address < region.stop

def Apart (region other : PmpRegion) : Prop :=
  ∀ address, region.Contains address → ¬ other.Contains address

variable {region other : PmpRegion}

theorem Apart.symm (h : region.Apart other) : other.Apart region :=
  fun address hother hregion => h address hregion hother

theorem apart_iff : region.Apart other ↔ region.stop ≤ region.start ∨
      other.stop ≤ other.start ∨ region.stop ≤ other.start ∨ other.stop ≤ region.start := by
  unfold Apart Contains
  constructor
  · intro h
    by_contra hnot
    exact h (max region.start other.start) (by omega) (by omega)
  · intro h address
    omega

end PmpRegion

open PmpRegion

theorem regionOverlaps_dev_eq_ok {region : PmpRegion} {start size : ℕ}
    {found : Bool} (h : regionOverlaps .dev region start size = .ok found) :
    start + size < 2 ^ 32 ∧ (found = false ↔ region.Apart ⟨off, start, start + size⟩) := by
  obtain ⟨hlt, hfound⟩ := of_add_dev_bind h
  cases hfound
  rw [apart_iff, decide_eq_false_iff_not]
  dsimp only
  omega

namespace PMPUserMPUConfig

variable {config : PMPUserMPUConfig maxRegions}

theorem off_of_freeRegion {i : Fin maxRegions}
    (h : config.freeRegion = some i) : ¬ (config.regions i).Active := by
  have hoff := List.find?_some h
  simpa [PmpRegion.Active] using hoff

theorem apart_of_overlapsAny {start size : ℕ} (h : config.overlapsAny .dev start size = .ok false) :
    ∀ j, (config.regions j).Active → (config.regions j).Apart ⟨off, start, start + size⟩ := by
  intro j hactive
  have hj := (anyM_eq_ok h).2 rfl j (List.mem_finRange j)
  rw [if_neg hactive] at hj
  exact (regionOverlaps_dev_eq_ok hj).2.mp rfl

/-- Slot `i` holds an active region between multiples of four that shares no
byte with another active region. -/
structure Sits (config : PMPUserMPUConfig maxRegions) (i : Fin maxRegions) : Prop where
  active : (config.regions i).Active
  start_aligned : 4 ∣ (config.regions i).start
  stop_aligned : 4 ∣ (config.regions i).stop
  apart : ∀ j ≠ i, (config.regions j).Active → (config.regions i).Apart (config.regions j)

/-- All active regions sit well; only the one of the process memory may be
empty, and its slot is in use. -/
structure WellFormed (config : PMPUserMPUConfig maxRegions) : Prop where
  sits : ∀ i, (config.regions i).Active → config.Sits i
  nonempty : ∀ i, (config.regions i).Active → config.appMemoryRegion ≠ some i →
      (config.regions i).start < (config.regions i).stop
  app_active : ∀ i, config.appMemoryRegion = some i → (config.regions i).Active

theorem wellFormed_of_allOff (h : ∀ i, ¬ (config.regions i).Active)
    (happ : config.appMemoryRegion = none) : config.WellFormed where
  sits := fun i hactive => absurd hactive (h i)
  nonempty := fun i hactive => absurd hactive (h i)
  app_active := by
    intro i hi
    rw [happ] at hi
    cases hi

end PMPUserMPUConfig

/-! ## Calls and what they answer -/

inductive MpuCall where
  | allocateRegion (unallocatedMemoryStart unallocatedMemorySize
      minRegionSize : ℕ) (permissions : Permissions)
  | allocateAppMemoryRegion (unallocatedMemoryStart unallocatedMemorySize
      minMemorySize initialAppMemorySize initialKernelMemorySize : ℕ) (permissions : Permissions)
  | updateAppMemoryRegion (appMemoryBreak kernelMemoryBreak : ℕ) (permissions : Permissions)
  | removeMemoryRegion (start size : ℕ)
  | resetConfig
deriving DecidableEq, Repr

inductive MpuAnswer where
  | failed
  | done
  | placed (start size : ℕ)
deriving DecidableEq, Repr

def MpuAnswer.ofOption : Option (ℕ × ℕ) → MpuAnswer
  | none => .failed
  | some (start, size) => .placed start size

def MpuAnswer.ofResult : Except Unit Unit → MpuAnswer
  | .error () => .failed
  | .ok () => .done

namespace MpuCall

def run (profile : Profile) (config : PMPUserMPUConfig maxRegions) :
    MpuCall → Except Trap (MpuAnswer × PMPUserMPUConfig maxRegions)
  | .allocateRegion start size minSize permissions => do
      let (answer, config) ← Pmp.allocateRegion profile start size minSize permissions config
      return (.ofOption answer, config)
  | .allocateAppMemoryRegion start size minSize app kernel permissions => do
      let (answer, config) ← Pmp.allocateAppMemoryRegion profile start size
        minSize app kernel permissions config
      return (.ofOption answer, config)
  | .updateAppMemoryRegion app kernel permissions => do
      let (answer, config) ← Pmp.updateAppMemoryRegion profile app kernel permissions config
      return (.ofResult answer, config)
  | .removeMemoryRegion start size => do
      let (answer, config) ← Pmp.removeMemoryRegion profile start size config
      return (.ofResult answer, config)
  | .resetConfig => return (.done, Pmp.resetConfig config)

/-- What a call that succeeded promises, from `config` to `config'`. -/
def Delivers (config config' : PMPUserMPUConfig maxRegions) : MpuCall → MpuAnswer → Prop
  | .allocateRegion unallocatedStart unallocatedSize minSize permissions, .placed start size =>
    ∃ i, ¬ (config.regions i).Active ∧ config'.regions i =
        ⟨.ofPermissions permissions, start, start + size⟩ ∧
      config'.Sits i ∧ unallocatedStart ≤ start ∧ minSize ≤ size ∧ size ≤ max minSize 1 + 3 ∧
      (start + size ≤ unallocatedStart + unallocatedSize ∨ writeable permissions = false ∧
          start + size ≤ unallocatedStart + unallocatedSize + 3) ∧
      config'.appMemoryRegion = config.appMemoryRegion ∧
      ∀ j ≠ i, config'.regions j = config.regions j
  | .allocateAppMemoryRegion unallocatedStart unallocatedSize minSize app
      kernel permissions, .placed start size =>
      ∃ i, ¬ (config.regions i).Active ∧ config.appMemoryRegion = none ∧
        config'.appMemoryRegion = some i ∧ (config'.regions i).cfg = .ofPermissions permissions ∧
        (config'.regions i).start = start ∧ config'.Sits i ∧ unallocatedStart ≤ start ∧
        start + size ≤ unallocatedStart + unallocatedSize ∧
        minSize ≤ size ∧ start + app ≤ (config'.regions i).stop ∧
        (config'.regions i).stop + kernel ≤ start + size ∧
        ∀ j ≠ i, config'.regions j = config.regions j
  | .updateAppMemoryRegion app kernel permissions, .done =>
    ∃ i, config.appMemoryRegion = some i ∧ config'.appMemoryRegion = some i ∧
      (config'.regions i).cfg = .ofPermissions permissions ∧
      (config'.regions i).start = (config.regions i).start ∧
      config'.Sits i ∧ app ≤ (config'.regions i).stop ∧ (config'.regions i).stop ≤ kernel ∧
      ∀ j ≠ i, config'.regions j = config.regions j
  | .removeMemoryRegion start size, .done =>
    ∃ i, config.appMemoryRegion ≠ some i ∧ (config.regions i).Active ∧
      (config.regions i).start = start ∧ (config.regions i).stop = start + size ∧
      ¬ (config'.regions i).Active ∧ config'.appMemoryRegion = config.appMemoryRegion ∧
      ∀ j ≠ i, config'.regions j = config.regions j
  | .resetConfig, .done =>
    (∀ i, ¬ (config'.regions i).Active) ∧ config'.appMemoryRegion = none
  | _, _ => False

/-- A call that fails changes nothing, one that succeeds delivers, and the
process memory stays where it is unless the configuration is reset. -/
structure Meets (call : MpuCall) (config config' : PMPUserMPUConfig maxRegions)
    (answer : MpuAnswer) : Prop where
  unchanged : answer = .failed → config' = config
  delivers : answer ≠ .failed → call.Delivers config config' answer
  app : call ≠ .resetConfig → ∀ i, config.appMemoryRegion = some i →
    config'.appMemoryRegion = some i ∧ (config'.regions i).Active

/-- The process memory is not named for removal and does not grow into another
region. -/
def Allowed (config : PMPUserMPUConfig maxRegions) : MpuCall → Prop
  | .removeMemoryRegion start size => ∀ i, config.appMemoryRegion = some i →
      ¬ ((config.regions i).start = start ∧ (config.regions i).stop = start + size)
  | .updateAppMemoryRegion app kernel _ => ∀ i,
      config.appMemoryRegion = some i → alignUp app 4 ≤ kernel →
      ∀ j ≠ i, (config.regions j).Active → ∀ address,
        max (config.regions i).start (config.regions i).stop ≤ address →
        address < alignUp app 4 → ¬ (config.regions j).Contains address
  | _ => True

end MpuCall

/-! ## What each call can do -/

theorem regionSize_dev_eq_ok {requested size : ℕ} (h : regionSize .dev requested = .ok size) :
    4 ∣ size ∧ 0 < size ∧ requested ≤ size ∧ size ≤ max requested 1 + 3 := by
  obtain ⟨_, hrounded, h⟩ := of_bind_ok h
  obtain rfl := roundUp_dev_eq_ok hrounded
  cases h
  have hdvd : 4 ∣ alignUp requested 4 := dvd_alignUp (by decide)
  have hle := le_alignUp requested 4
  have hlt : alignUp requested 4 < requested + 4 := alignUp_lt (by decide)
  split <;> omega

theorem exceeds_dev_eq_false {permissions : Permissions} {stop limit : ℕ}
    (h : exceeds .dev permissions stop limit = .ok false) :
    stop ≤ limit ∨ writeable permissions = false ∧ stop ≤ limit + 3 := by
  unfold exceeds at h
  by_cases hlimit : limit < stop
  · rw [if_pos hlimit] at h
    by_cases hwriteable : writeable permissions
    · rw [if_pos hwriteable] at h
      cases h
    rw [if_neg hwriteable] at h
    obtain ⟨-, h⟩ := of_add_dev_bind h
    simp only [pure, Except.pure, Except.ok.injEq, decide_eq_false_iff_not] at h
    exact .inr ⟨by simpa using hwriteable, by omega⟩
  · exact .inl (not_lt.mp hlimit)

section Calls

variable {config : PMPUserMPUConfig maxRegions} {permissions : Permissions}

/-- A region was placed in a free slot, apart from all active regions. -/
structure PlacedIn (config : PMPUserMPUConfig maxRegions) (i : Fin maxRegions)
    (start stop : ℕ) : Prop where
  free : ¬ (config.regions i).Active
  start_aligned : 4 ∣ start
  stop_aligned : 4 ∣ stop
  start_lt : start < stop
  apart : ∀ j, (config.regions j).Active → (config.regions j).Apart ⟨off, start, stop⟩

variable {outcome : Option (ℕ × ℕ) × PMPUserMPUConfig maxRegions}

theorem allocateRegion_cases {unallocatedStart unallocatedSize minSize : ℕ}
    (h : allocateRegion .dev unallocatedStart unallocatedSize minSize
      permissions config = .ok outcome) :
    outcome = (none, config) ∨ ∃ i start size, PlacedIn config i start (start + size) ∧
      unallocatedStart ≤ start ∧ minSize ≤ size ∧ size ≤ max minSize 1 + 3 ∧
      (start + size ≤ unallocatedStart + unallocatedSize ∨ writeable permissions = false ∧
          start + size ≤ unallocatedStart + unallocatedSize + 3) ∧
      outcome = (some (start, size), config.setRegion i
        ⟨.ofPermissions permissions, start, start + size⟩) := by
  unfold allocateRegion at h
  cases hfree : config.freeRegion with
  | none =>
    rw [hfree] at h
    cases h
    exact .inl rfl
  | some i =>
    rw [hfree] at h
    obtain ⟨start, hstart, h⟩ := of_bind_ok h
    obtain rfl := roundUp_dev_eq_ok hstart
    obtain ⟨size, hsize, h⟩ := of_bind_ok h
    obtain ⟨hdvd, hpos, hle, hextra⟩ := regionSize_dev_eq_ok hsize
    obtain ⟨-, h⟩ := of_add_dev_bind h
    obtain ⟨-, h⟩ := of_add_dev_bind h
    obtain ⟨exceeding, hexceeding, h⟩ := of_bind_ok h
    cases exceeding with
    | true =>
      cases h
      exact .inl rfl
    | false =>
      obtain ⟨found, hfound, h⟩ := of_bind_ok h
      cases found with
      | true =>
        cases h
        exact .inl rfl
      | false =>
        cases h
        have hstartDvd : 4 ∣ alignUp unallocatedStart 4 := dvd_alignUp (by decide)
        exact .inr ⟨i, _, size, ⟨off_of_freeRegion hfree, hstartDvd,
            Nat.dvd_add hstartDvd hdvd, by omega, apart_of_overlapsAny hfound⟩,
          le_alignUp _ _, hle, hextra, exceeds_dev_eq_false hexceeding, rfl⟩

theorem allocateAppMemoryRegion_cases {unallocatedStart unallocatedSize minSize app kernel : ℕ}
    (h : allocateAppMemoryRegion .dev unallocatedStart unallocatedSize minSize
      app kernel permissions config = .ok outcome) : outcome = (none, config) ∨ ∃ i start size stop,
      config.appMemoryRegion = none ∧ PlacedIn config i start stop ∧ unallocatedStart ≤ start ∧
      start + size ≤ unallocatedStart + unallocatedSize ∧
      minSize ≤ size ∧ start + app ≤ stop ∧ stop + kernel ≤ start + size ∧
      outcome = (some (start, size),
        { config.setRegion i ⟨.ofPermissions permissions, start, stop⟩ with
          appMemoryRegion := some i }) := by
  unfold allocateAppMemoryRegion at h
  cases happ : config.appMemoryRegion with
  | some i =>
    rw [happ] at h
    cases h
    exact .inl rfl
  | none =>
    rw [happ] at h
    cases hfree : config.freeRegion with
    | none =>
      rw [hfree] at h
      cases h
      exact .inl rfl
    | some i =>
      rw [hfree] at h
      obtain ⟨start, hstart, h⟩ := of_bind_ok h
      obtain rfl := roundUp_dev_eq_ok hstart
      obtain ⟨size, hsize, h⟩ := of_bind_ok h
      obtain ⟨hdvd, hpos, hle, -⟩ := regionSize_dev_eq_ok hsize
      obtain ⟨-, h⟩ := of_add_dev_bind h
      obtain ⟨-, h⟩ := of_add_dev_bind h
      obtain ⟨-, h⟩ := of_add_dev_bind h
      split at h
      · cases h
        exact .inl rfl
      rename_i hfits
      obtain ⟨found, hfound, h⟩ := of_bind_ok h
      cases found with
      | true =>
        cases h
        exact .inl rfl
      | false =>
        obtain ⟨-, h⟩ := of_add_dev_bind h
        cases h
        have hstartDvd : 4 ∣ alignUp unallocatedStart 4 := dvd_alignUp (by decide)
        have hblockApart := apart_of_overlapsAny hfound
        refine .inr ⟨i, _, _, _, rfl, ⟨off_of_freeRegion hfree, hstartDvd,
            Nat.dvd_add hstartDvd hdvd, by omega, ?_⟩,
          le_alignUp _ _, not_lt.mp hfits, le_max_left _ _, by omega, by omega, rfl⟩
        -- The region is the front of the block that was checked.
        intro j hactive address hj hregion
        refine hblockApart j hactive address hj ⟨hregion.1, ?_⟩
        have hlt := hregion.2
        dsimp only at hlt ⊢
        omega

theorem updateAppMemoryRegion_cases {app kernel : ℕ}
    {outcome : Except Unit Unit × PMPUserMPUConfig maxRegions}
    (h : updateAppMemoryRegion .dev app kernel permissions config = .ok outcome) :
    (outcome = (.error (), config) ∧
      ∀ i, config.appMemoryRegion = some i → kernel < alignUp app 4) ∨
    ∃ i, config.appMemoryRegion = some i ∧ alignUp app 4 ≤ kernel ∧
      outcome = (.ok (), config.setRegion i
        { config.regions i with
          cfg := .ofPermissions permissions, stop := alignUp app 4 }) := by
  unfold updateAppMemoryRegion at h
  cases happ : config.appMemoryRegion with
  | none =>
    rw [happ] at h
    cases h
    exact .inl ⟨rfl, nofun⟩
  | some i =>
    rw [happ] at h
    obtain ⟨_, hrounded, h⟩ := of_bind_ok h
    obtain rfl := roundUp_dev_eq_ok hrounded
    split at h
    · rename_i hlt
      cases h
      exact .inl ⟨rfl, fun _ _ => hlt⟩
    rename_i hle
    cases h
    exact .inr ⟨i, rfl, not_lt.mp hle, rfl⟩

theorem isRegion_dev_eq_ok {start size : ℕ} {region : PmpRegion} {found : Bool}
    (h : isRegion .dev start size region = .ok found) :
    found ↔ region.Active ∧ region.start = start ∧ region.stop = start + size := by
  unfold isRegion at h
  split at h
  · rename_i hmatch
    obtain ⟨-, h⟩ := of_add_dev_bind h
    cases h
    rw [decide_eq_true_iff]
    exact ⟨fun heq => ⟨hmatch.1, hmatch.2, heq⟩, fun hall => hall.2.2⟩
  rename_i hmismatch
  cases h
  simp only [Bool.false_eq_true, false_iff]
  intro hall
  exact hmismatch ⟨hall.1, hall.2.1⟩

theorem removeMemoryRegion_cases {start size : ℕ}
    {outcome : Except Unit Unit × PMPUserMPUConfig maxRegions}
    (h : removeMemoryRegion .dev start size config = .ok outcome) :
    (outcome = (.error (), config) ∧
      ∀ i, ¬ ((config.regions i).Active ∧ (config.regions i).start = start ∧
        (config.regions i).stop = start + size)) ∨
    ∃ i, (config.regions i).Active ∧ (config.regions i).start = start ∧
      (config.regions i).stop = start + size ∧ outcome = (.ok (),
        config.setRegion i { config.regions i with cfg := off }) := by
  obtain ⟨found, hfound, h⟩ := of_bind_ok h
  cases found with
  | none =>
    cases h
    refine .inl ⟨rfl, ?_⟩
    intro i hi
    have hnot := findM_eq_ok_none hfound i (List.mem_finRange i)
    exact nomatch (isRegion_dev_eq_ok hnot).mpr hi
  | some i =>
    cases h
    obtain ⟨-, hi⟩ := findM_eq_ok_some hfound
    obtain ⟨hactive, hstart, hstop⟩ := (isRegion_dev_eq_ok hi).mp rfl
    exact .inr ⟨i, hactive, hstart, hstop, rfl⟩

end Calls

/-! ## What the calls preserve -/

section Preservation

variable {config config' : PMPUserMPUConfig maxRegions} {i : Fin maxRegions}
  {region : PmpRegion}

theorem PMPUserMPUConfig.WellFormed.setRegion (h : config.WellFormed)
    (hregions : config'.regions = update config.regions i region)
    (hactive : region.Active) (hstart : 4 ∣ region.start) (hstop : 4 ∣ region.stop)
    (hapart : ∀ j ≠ i, (config.regions j).Active → region.Apart (config.regions j))
    (hnonempty : config'.appMemoryRegion ≠ some i → region.start < region.stop)
    (happ : ∀ k, config'.appMemoryRegion = some k → k = i ∨ config.appMemoryRegion = some k)
    (hkept : ∀ k ≠ i, config.appMemoryRegion = some k →
      config'.appMemoryRegion = some k) : config'.WellFormed := by
  have hsame : config'.regions i = region := by
    rw [hregions, update_self]
  have hother : ∀ j ≠ i, config'.regions j = config.regions j := by
    intro j hj
    rw [hregions, update_of_ne hj]
  refine ⟨?_, ?_, ?_⟩
  · intro j hj
    by_cases heq : j = i
    · subst heq
      refine ⟨hj, ?_, ?_, ?_⟩
      · rwa [hsame]
      · rwa [hsame]
      · intro k hk hkActive
        rw [hother k hk] at hkActive ⊢
        rw [hsame]
        exact hapart k hk hkActive
    rw [hother j heq] at hj
    have hsits := h.sits j hj
    refine ⟨by rwa [hother j heq], ?_, ?_, ?_⟩
    · rw [hother j heq]
      exact hsits.start_aligned
    · rw [hother j heq]
      exact hsits.stop_aligned
    · intro k hk hkActive
      rw [hother j heq]
      by_cases hki : k = i
      · rw [hki, hsame]
        exact (hapart j heq hj).symm
      · rw [hother k hki] at hkActive ⊢
        exact hsits.apart k hk hkActive
  · intro j hj hjApp
    by_cases heq : j = i
    · subst heq
      rw [hsame]
      exact hnonempty hjApp
    · rw [hother j heq] at hj ⊢
      exact h.nonempty j hj fun hk => hjApp (hkept j heq hk)
  · intro k hk
    by_cases heq : k = i
    · rw [heq, hsame]
      exact hactive
    · rw [hother k heq]
      exact h.app_active k ((happ k hk).resolve_left heq)

variable {start size : ℕ} {permissions : Permissions} {answer : MpuAnswer}

theorem PlacedIn.wellFormed {cfg : TORUserPMPCFG} {stop : ℕ}
    (hplaced : PlacedIn config i start stop) (h : config.WellFormed)
    (hregions : config'.regions = update config.regions i ⟨cfg, start, stop⟩) (hcfg : cfg ≠ off)
    (happ : ∀ k, config'.appMemoryRegion = some k → k = i ∨ config.appMemoryRegion = some k)
    (hkept : ∀ k ≠ i, config.appMemoryRegion = some k → config'.appMemoryRegion = some k) :
    config'.WellFormed := by
  refine h.setRegion hregions hcfg hplaced.start_aligned hplaced.stop_aligned
    ?_ (fun _ => hplaced.start_lt) happ hkept
  intro j _ hj
  exact (hplaced.apart j hj).symm

theorem PMPUserMPUConfig.WellFormed.clearRegion (h : config.WellFormed)
    (happ : config.appMemoryRegion ≠ some i) : (config.setRegion i
      { config.regions i with cfg := off }).WellFormed := by
  have hcleared : ∀ j, ((config.setRegion i
      { config.regions i with cfg := off }).regions j).Active →
      j ≠ i ∧ (config.regions j).Active := by
    intro j hj
    by_cases heq : j = i
    · subst heq
      simp only [PMPUserMPUConfig.setRegion, update_self] at hj
      exact absurd rfl hj
    · simp only [PMPUserMPUConfig.setRegion, update_of_ne heq] at hj
      exact ⟨heq, hj⟩
  have hother : ∀ j ≠ i, (config.setRegion i
      { config.regions i with cfg := off }).regions j = config.regions j :=
    fun j hj => update_of_ne hj _ _
  refine ⟨?_, ?_, ?_⟩
  · intro j hj
    obtain ⟨hne, hactive⟩ := hcleared j hj
    have hsits := h.sits j hactive
    refine ⟨hj, ?_, ?_, ?_⟩
    · rw [hother j hne]
      exact hsits.start_aligned
    · rw [hother j hne]
      exact hsits.stop_aligned
    · intro k hk hkActive
      obtain ⟨hkne, hkActive⟩ := hcleared k hkActive
      rw [hother j hne, hother k hkne]
      exact hsits.apart k hk hkActive
  · intro j hj hjApp
    obtain ⟨hne, hactive⟩ := hcleared j hj
    rw [hother j hne]
    exact h.nonempty j hactive hjApp
  · intro k hk
    have hne : k ≠ i := by
      rintro rfl
      exact happ hk
    rw [hother k hne]
    exact h.app_active k hk

theorem PMPUserMPUConfig.WellFormed.apart_grown_iff (h : config.WellFormed)
    (happ : config.appMemoryRegion = some i) (cfg : TORUserPMPCFG) (stop : ℕ) :
    (∀ j ≠ i, (config.regions j).Active → (PmpRegion.mk cfg (config.regions i).start stop).Apart
        (config.regions j)) ↔ ∀ j ≠ i, (config.regions j).Active → ∀ address,
        max (config.regions i).start (config.regions i).stop ≤ address →
        address < stop → ¬ (config.regions j).Contains address := by
  constructor
  · intro hapart j hj hactive address hle hlt hcontains
    exact hapart j hj hactive address ⟨(le_max_left _ _).trans hle, hlt⟩ hcontains
  · intro hgrown j hj hactive address hregion hcontains
    have hlt : address < stop := hregion.2
    have hstart : (config.regions i).start ≤ address := hregion.1
    by_cases hold : address < (config.regions i).stop
    · exact (h.sits i (h.app_active i happ)).apart j hj hactive address ⟨hstart, hold⟩ hcontains
    · exact hgrown j hj hactive address (max_le hstart (not_lt.mp hold)) hlt hcontains

/-- A call either keeps its contract and leaves a well-formed configuration, or
it is one of the two that are not allowed and breaks the contract. -/
def MpuCall.Settled (call : MpuCall)
    (config config' : PMPUserMPUConfig maxRegions) (answer : MpuAnswer) : Prop :=
  (call.Allowed config ∧ call.Meets config config' answer ∧ config'.WellFormed) ∨
  (¬ call.Allowed config ∧ ¬ call.Meets config config' answer)

section

variable (h : config.WellFormed)
include h

theorem MpuCall.meets_failed (call : MpuCall) : call.Meets config config .failed where
  unchanged := fun _ => rfl
  delivers := fun hne => absurd rfl hne
  app := fun _ i hi => ⟨hi, h.app_active i hi⟩

theorem MpuCall.settled_allocateRegion {minSize : ℕ}
    (hrun : (MpuCall.allocateRegion start size minSize permissions).run .dev config =
      .ok (answer, config')) :
    (MpuCall.allocateRegion start size minSize permissions).Settled config config' answer := by
  obtain ⟨_, hcall, hrun⟩ := of_bind_ok hrun
  obtain rfl | ⟨i, placedStart, placedSize, hplaced, hstart, hsize, hextra,
    hfits, rfl⟩ := allocateRegion_cases hcall
  · cases hrun
    exact .inl ⟨trivial, MpuCall.meets_failed h _, h⟩
  cases hrun
  have hwf : (config.setRegion i ⟨.ofPermissions permissions, placedStart,
      placedStart + placedSize⟩).WellFormed :=
    hplaced.wellFormed h rfl (ofPermissions_ne_off permissions)
      (fun k hk => .inr hk) (fun k _ hk => hk)
  have hsame : (config.setRegion i ⟨.ofPermissions permissions, placedStart,
      placedStart + placedSize⟩).regions i =
      ⟨.ofPermissions permissions, placedStart, placedStart + placedSize⟩ :=
    update_self i _ _
  have hsits := hwf.sits i (by
    rw [hsame]
    exact ofPermissions_ne_off permissions)
  refine .inl ⟨trivial, ⟨nofun, ?_, ?_⟩, hwf⟩
  · intro _
    exact ⟨i, hplaced.free, hsame, hsits, hstart, hsize, hextra, hfits, rfl,
      fun j hj => update_of_ne hj _ _⟩
  · intro _ k hk
    exact ⟨hk, hwf.app_active k hk⟩

theorem MpuCall.settled_allocateAppMemoryRegion {minSize app kernel : ℕ}
    (hrun : (MpuCall.allocateAppMemoryRegion start size minSize app kernel permissions).run .dev
      config = .ok (answer, config')) :
    (MpuCall.allocateAppMemoryRegion start size minSize app kernel
      permissions).Settled config config' answer := by
  obtain ⟨_, hcall, hrun⟩ := of_bind_ok hrun
  obtain rfl | ⟨i, placedStart, _, stop, happ, hplaced, hstart, hfits,
    hsize, hcovers, hkernel, rfl⟩ := allocateAppMemoryRegion_cases hcall
  · cases hrun
    exact .inl ⟨trivial, MpuCall.meets_failed h _, h⟩
  cases hrun
  have hwf : WellFormed
      { config.setRegion i ⟨.ofPermissions permissions, placedStart, stop⟩
        with appMemoryRegion := some i } :=
    hplaced.wellFormed h rfl (ofPermissions_ne_off permissions)
      (fun k hk => .inl (Option.some.inj hk).symm) (fun k _ hk => by rw [happ] at hk; cases hk)
  have hsame : (config.setRegion i ⟨.ofPermissions permissions, placedStart, stop⟩).regions i =
      ⟨.ofPermissions permissions, placedStart, stop⟩ :=
    update_self i _ _
  refine .inl ⟨trivial, ⟨nofun, ?_, ?_⟩, hwf⟩
  · intro _
    refine ⟨i, hplaced.free, happ, rfl, ?_, ?_,
      hwf.sits i (hwf.app_active i rfl), hstart, hfits, hsize, ?_, ?_,
      fun j hj => update_of_ne hj _ _⟩
    · rw [hsame]
    · rw [hsame]
    · rw [hsame]
      exact hcovers
    · rw [hsame]
      exact hkernel
  · intro _ k hk
    rw [happ] at hk
    cases hk

theorem MpuCall.settled_updateAppMemoryRegion {app kernel : ℕ}
    (hrun : (MpuCall.updateAppMemoryRegion app kernel permissions).run .dev config =
      .ok (answer, config')) :
    (MpuCall.updateAppMemoryRegion app kernel permissions).Settled config config' answer := by
  obtain ⟨_, hcall, hrun⟩ := of_bind_ok hrun
  obtain ⟨rfl, hout⟩ | ⟨i, happ, hle, rfl⟩ := updateAppMemoryRegion_cases hcall
  · cases hrun
    refine .inl ⟨?_, MpuCall.meets_failed h _, h⟩
    intro i hi hroom
    exact absurd (hout i hi) (not_lt.mpr hroom)
  cases hrun
  have hsame : (config.setRegion i
      { config.regions i with
        cfg := .ofPermissions permissions
        stop := alignUp app 4 }).regions i =
      ⟨.ofPermissions permissions, (config.regions i).start, alignUp app 4⟩ :=
    update_self i _ _
  have hother : ∀ j ≠ i, (config.setRegion i
      { config.regions i with
        cfg := .ofPermissions permissions
        stop := alignUp app 4 }).regions j = config.regions j :=
    fun j hj => update_of_ne hj _ _
  have hgrown := h.apart_grown_iff happ (.ofPermissions permissions) (alignUp app 4)
  by_cases hapart : ∀ j ≠ i, (config.regions j).Active →
      (PmpRegion.mk (.ofPermissions permissions) (config.regions i).start
        (alignUp app 4)).Apart (config.regions j)
  · have hwf : (config.setRegion i
        { config.regions i with
          cfg := .ofPermissions permissions
          stop := alignUp app 4 }).WellFormed :=
      h.setRegion rfl (ofPermissions_ne_off permissions)
        (h.sits i (h.app_active i happ)).start_aligned
        (dvd_alignUp (by decide)) hapart (fun hne => absurd happ hne)
        (fun k hk => .inr hk) (fun k _ hk => hk)
    refine .inl ⟨?_, ⟨nofun, ?_, ?_⟩, hwf⟩
    · intro k hk _
      rw [happ] at hk
      cases hk
      exact hgrown.mp hapart
    · intro _
      refine ⟨i, happ, happ, ?_, ?_, hwf.sits i (hwf.app_active i happ), ?_, ?_, hother⟩
      · rw [hsame]
      · rw [hsame]
      · rw [hsame]
        exact le_alignUp _ _
      · rw [hsame]
        exact hle
    · intro _ k hk
      exact ⟨hk, hwf.app_active k hk⟩
  · refine .inr ⟨?_, ?_⟩
    · intro hallowed
      exact hapart (hgrown.mpr (hallowed i happ hle))
    · intro hmeets
      obtain ⟨k, hk, -, -, -, hsits, -⟩ := hmeets.delivers nofun
      rw [happ] at hk
      cases hk
      apply hapart
      intro j hj hactive
      have hjApart := hsits.apart j hj (by rwa [hother j hj])
      rwa [hsame, hother j hj] at hjApart

theorem MpuCall.settled_removeMemoryRegion
    (hrun : (MpuCall.removeMemoryRegion start size).run .dev config = .ok (answer, config')) :
    (MpuCall.removeMemoryRegion start size).Settled config config' answer := by
  obtain ⟨_, hcall, hrun⟩ := of_bind_ok hrun
  obtain ⟨rfl, hnone⟩ | ⟨i, hactive, hstart, hstop, rfl⟩ := removeMemoryRegion_cases hcall
  · cases hrun
    refine .inl ⟨?_, MpuCall.meets_failed h _, h⟩
    intro i hi hmatch
    exact hnone i ⟨h.app_active i hi, hmatch.1, hmatch.2⟩
  cases hrun
  have hsame : (config.setRegion i { config.regions i with cfg := off }).regions i =
      { config.regions i with cfg := off } :=
    update_self i _ _
  by_cases happ : config.appMemoryRegion = some i
  · refine .inr ⟨fun hallowed => hallowed i happ ⟨hstart, hstop⟩, ?_⟩
    intro hmeets
    obtain ⟨-, hstill⟩ := hmeets.app nofun i happ
    rw [hsame] at hstill
    exact hstill rfl
  have hwf := h.clearRegion happ
  refine .inl ⟨?_, ⟨nofun, ?_, ?_⟩, hwf⟩
  · -- Only an empty region can have the bounds of the process memory.
    intro k hk hmatch
    have hne : k ≠ i := by
      rintro rfl
      exact happ hk
    have hapart := (h.sits k (h.app_active k hk)).apart i hne.symm hactive
    have hnonempty := h.nonempty i hactive happ
    rw [apart_iff] at hapart
    omega
  · intro _
    refine ⟨i, happ, hactive, hstart, hstop, ?_, rfl, fun j hj => update_of_ne hj _ _⟩
    rw [hsame]
    exact fun hne => hne rfl
  · intro _ k hk
    exact ⟨hk, hwf.app_active k hk⟩

theorem MpuCall.settled {call : MpuCall} (hrun : call.run .dev config = .ok (answer, config')) :
    call.Settled config config' answer := by
  cases call with
  | allocateRegion => exact MpuCall.settled_allocateRegion h hrun
  | allocateAppMemoryRegion =>
    exact MpuCall.settled_allocateAppMemoryRegion h hrun
  | updateAppMemoryRegion => exact MpuCall.settled_updateAppMemoryRegion h hrun
  | removeMemoryRegion => exact MpuCall.settled_removeMemoryRegion h hrun
  | resetConfig =>
    cases hrun
    have hoff : ∀ i, ¬ ((Pmp.resetConfig config).regions i).Active := fun i hactive => hactive rfl
    exact .inl ⟨trivial, ⟨nofun, fun _ => ⟨hoff, rfl⟩, fun hne => absurd rfl hne⟩,
      wellFormed_of_allOff hoff rfl⟩

end

end Preservation

/-! ## Sequences of calls -/

def runCalls (profile : Profile) (calls : List MpuCall) (config : PMPUserMPUConfig maxRegions) :
    Except Trap (PMPUserMPUConfig maxRegions) :=
  calls.foldlM (fun config call => do
    let (_, config) ← call.run profile config
    return config) config

def RunAllowed : List MpuCall → PMPUserMPUConfig maxRegions → Prop
  | [], _ => True
  | call :: calls, config => call.Allowed config ∧
      ∀ answer config', call.run .dev config = .ok (answer, config') → RunAllowed calls config'

theorem PMPUserMPUConfig.WellFormed.run (calls : List MpuCall)
    {config config' : PMPUserMPUConfig maxRegions} (h : config.WellFormed)
    (hallowed : RunAllowed calls config) (hrun : runCalls .dev calls config = .ok config') :
    config'.WellFormed := by
  induction calls generalizing config with
  | nil =>
    cases hrun
    exact h
  | cons call calls ih =>
    obtain ⟨next, hcall, hrest⟩ := of_bind_ok hrun
    obtain ⟨⟨answer, _⟩, hfirst, hreturn⟩ := of_bind_ok hcall
    cases hreturn
    obtain ⟨-, -, hwf⟩ | ⟨hnot, -⟩ := MpuCall.settled h hfirst
    · exact ih hwf (hallowed.2 answer next hfirst) hrest
    · exact absurd hallowed.1 hnot

/-- After any calls that are allowed, a call that overflows nowhere keeps the
contract exactly if it is allowed. -/
theorem pmp_mpu_contract (maxRegions configCount : ℕ) (config : PMPUserMPUConfig maxRegions)
    (count : ℕ) (hnew : newConfig maxRegions configCount = some (config, count))
    (calls : List MpuCall) (hallowed : RunAllowed calls config)
    (config' : PMPUserMPUConfig maxRegions) (hrun : runCalls .dev calls config = .ok config')
    (call : MpuCall) (answer : MpuAnswer) (after : PMPUserMPUConfig maxRegions)
    (hcall : call.run .dev config' = .ok (answer, after)) :
    call.Meets config' after answer ↔ call.Allowed config' := by
  have hwf : config.WellFormed := by
    unfold newConfig at hnew
    split at hnew
    · cases hnew
      exact wellFormed_of_allOff (fun i hactive => hactive rfl) rfl
    · cases hnew
  obtain ⟨hyes, hmeets, -⟩ | ⟨hno, hbroken⟩ := MpuCall.settled (hwf.run calls hallowed hrun) hcall
  · exact iff_of_true hmeets hyes
  · exact iff_of_false hbroken hno

/-- A configuration of two regions as `new_config` returns it. -/
def emptyConfig : PMPUserMPUConfig 2 :=
  ⟨1, true, fun _ => offRegion, none⟩

def allocateApp : MpuCall :=
  .allocateAppMemoryRegion 0x1000 0x1000 0x200 0x100 0x100 .readWriteOnly

theorem pmp_mpu_contract_small :
    ∃ config' after, runCalls .dev [allocateApp] emptyConfig = .ok config' ∧
      (MpuCall.updateAppMemoryRegion 0x10FE 0x1100 .readWriteOnly).run .dev
        config' = .ok (.done, after) ∧
      (MpuCall.updateAppMemoryRegion 0x10FE 0x1100 .readWriteOnly).Meets config' after .done := by
  refine ⟨_, _, rfl, rfl, ?_⟩
  refine (pmp_mpu_contract 2 1 emptyConfig 2 rfl [allocateApp]
    ⟨trivial, fun _ _ _ => trivial⟩ _ rfl _ _ _ rfl).mpr ?_
  intro i hi _ j hj hactive
  cases hi
  have hslots : ∀ j : Fin 2, j ≠ 0 → j = 1 := by decide
  obtain rfl := hslots j hj
  exact absurd rfl hactive

/-- The region of the process memory can be removed, and it can grow over a
region that was allocated behind it. -/
theorem pmp_mpu_contract_broken :
    (∃ config' after, runCalls .dev [allocateApp] emptyConfig = .ok config' ∧
      (MpuCall.removeMemoryRegion 0x1000 0x100).run .dev config' = .ok (.done, after) ∧
      ¬ (MpuCall.removeMemoryRegion 0x1000 0x100).Meets config' after .done) ∧
    (∃ config' after, runCalls .dev [allocateApp,
        .allocateRegion 0x1100 0x80 0x80 .readWriteOnly] emptyConfig = .ok config' ∧
      (MpuCall.updateAppMemoryRegion 0x1104 0x1180 .readWriteOnly).run .dev
        config' = .ok (.done, after) ∧
      ¬ (MpuCall.updateAppMemoryRegion 0x1104 0x1180 .readWriteOnly).Meets
        config' after .done) := by
  refine ⟨⟨_, _, rfl, rfl, ?_⟩, ⟨_, _, rfl, rfl, ?_⟩⟩
  · intro h
    obtain ⟨-, hactive⟩ := h.app nofun 0 rfl
    exact hactive rfl
  · intro h
    obtain ⟨i, hi, -, -, -, hsits, -⟩ := h.delivers nofun
    cases hi
    exact hsits.apart 1 (by decide) (ofPermissions_ne_off .readWriteOnly) 0x1100
      (by constructor <;> decide) (by constructor <;> decide)

end TockKernel.Pmp

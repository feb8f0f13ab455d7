import TockKernel.Pmp.Registers

/-!
# Programming the PMP for user mode

The drivers behind `TORUserPMP`: `SimplePMP` and `KernelProtectionPMP` write the
registers in `configure_pmp`, the two drivers for the ePMP keep the octets aside
until `enable_user_pmp`. All of them gather the octets of two regions in one
register write where they can. A write to a register that does not exist is a
panic and gives `none`.
-/

namespace TockKernel.Pmp

open TORUserPMPCFG (off)
open Option List

/-! ## Probing the entries

The constructors of the first three drivers start by looking at every entry they
were told of. -/

def probeEntry (i : ℕ) (csr : Csr) : Option (Except Unit Csr) := do
  let pmpcfgCsr ← csr.pmpconfigGet (i / 4)
  let pmpcfg : BitVec 8 := (pmpcfgCsr >>> (i % 4 * 8)).setWidth 8
  if pmpcfg.getLsbD 7 then
    return .error ()
  else
    let flipped ← csr.pmpconfigSet (i / 4) (pmpcfgCsr ^^^ (7#32 <<< (i % 4 * 8)))
    let readBack ← flipped.pmpconfigGet (i / 4)
    if pmpcfgCsr = readBack then
      return .error ()
    else
      let turnedOff ← flipped.pmpconfigSet (i / 4) (pmpcfgCsr &&& ~~~(0x18#32 <<< (i % 4 * 8)))
      return .ok turnedOff

/-- The entries from `i` on, `remaining` of them. -/
def probeEntries : (remaining i : ℕ) → Csr → Option (Except Unit Csr)
  | 0, _, csr => some (.ok csr)
  | remaining + 1, i, csr => do
      match ← probeEntry i csr with
      | .error () => return .error ()
      | .ok csr => probeEntries remaining (i + 1) csr

def Probed (availableEntries : ℕ) : Prop :=
  ∃ csr csr', probeEntries availableEntries 0 csr = some (.ok csr')

theorem lt_of_probeEntry {csr : Csr} {result : Except Unit Csr}
    (h : probeEntry i csr = some result) : i < 64 := by
  obtain ⟨_, hvalue, -⟩ := bind_eq_some_iff.mp h
  have hindex : i / 4 < 16 := by
    by_contra hlarge
    rw [Csr.pmpconfigGet, if_neg hlarge] at hvalue
    cases hvalue
  omega

theorem le_of_probeEntries {remaining i : ℕ} {csr csr' : Csr}
    (h : probeEntries remaining i csr = some (.ok csr')) : remaining = 0 ∨ i + remaining ≤ 64 := by
  induction remaining generalizing i csr with
  | zero => exact .inl rfl
  | succ remaining ih =>
    obtain ⟨result, hres, hrest⟩ := bind_eq_some_iff.mp h
    have hi := lt_of_probeEntry hres
    cases result with
    | error e => cases hrest
    | ok next =>
      have hnext := ih hrest
      omega

theorem Probed.le {availableEntries : ℕ} (h : Probed availableEntries) : availableEntries ≤ 64 := by
  obtain ⟨_, _, hprobe⟩ := h
  have hle := le_of_probeEntries hprobe
  omega

/-! ## Drivers without shadow registers -/

def configureRegions : List PmpRegion → ℕ → Csr → Option Csr
  | [], _, csr => some csr
  | [evenRegion], i, csr => do
      let csr ← csr.pmpconfigModify (i / 2) (FieldValue.new 0x0000FFFF 0
        (fromBeBytes 0 0 evenRegion.cfg.get off.get))
      csr.setAddresses evenRegion (i * 2)
  | evenRegion :: oddRegion :: rest, i, csr => do
      let csr ← csr.pmpconfigSet (i / 2)
        (fromBeBytes oddRegion.cfg.get off.get evenRegion.cfg.get off.get)
      let csr ← csr.setAddresses evenRegion (i * 2)
      let csr ← csr.setAddresses oddRegion (i * 2 + 2)
      configureRegions rest (i + 2) csr

theorem exists_configureRegions (regions : List PmpRegion) {i : ℕ} (csr : Csr)
    (heven : i % 2 = 0) (hfits : i + regions.length ≤ 32) :
    ∃ csr', configureRegions regions i csr = some csr' ∧
      csr'.octet = writeOctets (regions.map (·.cfg)) (i * 2) csr.octet ∧
      csr'.pmpaddr = writeAddresses regions (i * 2) csr.pmpaddr := by
  induction regions, i, csr using configureRegions.induct with
  | case1 i csr => exact ⟨csr, rfl, rfl, rfl⟩
  | case2 region i csr =>
    simp only [length_singleton] at hfits
    have hentry : 4 * (i / 2) + 2 * 0 = i * 2 := by omega
    obtain ⟨csr1, hmodify, hoctet, haddr⟩ :=
      csr.exists_pmpconfigModify region.cfg 0 (show i / 2 < 16 by omega) (by decide)
    obtain ⟨csr2, hset, haddr', hoctet'⟩ := csr1.exists_setAddresses region
      (show i * 2 + 1 < 64 by omega)
    refine ⟨csr2, ?_, ?_, ?_⟩
    · exact bind_eq_some_iff.mpr ⟨csr1, hmodify, hset⟩
    · rw [hoctet', hoctet, hentry]
      rfl
    · rw [haddr', haddr]
      rfl
  | case3 evenRegion oddRegion rest i csr ih =>
    simp only [length_cons] at hfits
    have hentry : 4 * (i / 2) = i * 2 := by omega
    obtain ⟨csr1, hword, hoctet1, haddr1⟩ :=
      csr.exists_pmpconfigSet evenRegion.cfg oddRegion.cfg (show i / 2 < 16 by omega)
    obtain ⟨csr2, heven2, haddr2, hoctet2⟩ :=
      csr1.exists_setAddresses evenRegion (show i * 2 + 1 < 64 by omega)
    obtain ⟨csr3, hodd3, haddr3, hoctet3⟩ :=
      csr2.exists_setAddresses oddRegion (show i * 2 + 2 + 1 < 64 by omega)
    obtain ⟨csr', hrest, hoctet, haddr⟩ := ih csr3 (by omega) (by omega)
    have hnext : (i + 2) * 2 = i * 2 + 2 + 2 := by ring
    refine ⟨csr', ?_, ?_, ?_⟩
    · simp [configureRegions, hword, heven2, hodd3, hrest]
    · rw [hoctet, hoctet3, hoctet2, hoctet1, hentry, hnext]
      rfl
    · rw [haddr, haddr3, haddr2, haddr1, hnext]
      rfl

namespace SimplePMP

def constAssertCheck (availableEntries mpuRegions : ℕ) : Prop :=
  mpuRegions ≤ availableEntries / 2

def configurePmp (regions : List PmpRegion) (csr : Csr) : Option (Except Unit Unit × Csr) := do
  let csr ← configureRegions regions 0 csr
  return (.ok (), csr)

end SimplePMP

namespace KernelProtectionPMP

/-- Seven entries are the kernel's; with fewer the difference underflows at
compile time. -/
def constAssertCheck (availableEntries mpuRegions : ℕ) : Prop :=
  7 ≤ availableEntries ∧ mpuRegions ≤ (availableEntries - 7) / 2

def configurePmp (regions : List PmpRegion) (csr : Csr) : Option (Except Unit Unit × Csr) := do
  let csr ← configureRegions regions 0 csr
  return (.ok (), csr)

end KernelProtectionPMP

/-! ## Drivers with shadow registers -/

def enableRegions : List TORUserPMPCFG → ℕ → Csr → Option Csr
  | [], _, csr => some csr
  | [first], i, csr =>
    if i % 2 = 0 then
      csr.pmpconfigModify (i / 2) (FieldValue.new 0x0000FFFF 0 (fromBeBytes 0 0 first.get off.get))
    else
      csr.pmpconfigModify (i / 2) (FieldValue.new 0x0000FFFF 16 (fromBeBytes 0 0 first.get off.get))
  | first :: second :: rest, i, csr =>
    if i % 2 = 0 then do
      let csr ← csr.pmpconfigSet (i / 2) (fromBeBytes second.get off.get first.get off.get)
      enableRegions rest (i + 2) csr
    else do
      let csr ← csr.pmpconfigModify (i / 2) (FieldValue.new 0x0000FFFF 16
        (fromBeBytes 0 0 first.get off.get))
      enableRegions (second :: rest) (i + 1) csr

theorem exists_enableRegions (cfgs : List TORUserPMPCFG) {i : ℕ} (csr : Csr)
    (hfits : i + cfgs.length ≤ 32) : ∃ csr', enableRegions cfgs i csr = some csr' ∧
      csr'.octet = writeOctets cfgs (i * 2) csr.octet ∧ csr'.pmpaddr = csr.pmpaddr := by
  induction cfgs, i, csr using enableRegions.induct with
  | case1 i csr => exact ⟨csr, rfl, rfl, rfl⟩
  | case2 first i csr heven =>
    simp only [length_singleton] at hfits
    obtain ⟨csr', hmodify, hoctet, haddr⟩ :=
      csr.exists_pmpconfigModify first 0 (show i / 2 < 16 by omega) (by decide)
    rw [show 4 * (i / 2) + 2 * 0 = i * 2 by omega] at hoctet
    rw [enableRegions, if_pos heven]
    exact ⟨csr', hmodify, hoctet, haddr⟩
  | case3 first i csr hodd =>
    obtain ⟨csr', hmodify, hoctet, haddr⟩ :=
      csr.exists_pmpconfigModify first 1 (show i / 2 < 16 by omega) (by decide)
    rw [show 4 * (i / 2) + 2 * 1 = i * 2 by omega] at hoctet
    rw [enableRegions, if_neg hodd]
    exact ⟨csr', hmodify, hoctet, haddr⟩
  | case4 first second rest i csr heven ih =>
    simp only [length_cons] at hfits
    obtain ⟨csr1, hword, hoctet1, haddr1⟩ :=
      csr.exists_pmpconfigSet first second (show i / 2 < 16 by omega)
    obtain ⟨csr', hrest, hoctet, haddr⟩ := ih csr1 (by omega)
    refine ⟨csr', ?_, ?_, haddr.trans haddr1⟩
    · rw [enableRegions, if_pos heven]
      simp [hword, hrest]
    · rw [hoctet, hoctet1, show 4 * (i / 2) = i * 2 by omega,
        show (i + 2) * 2 = i * 2 + 2 + 2 by ring]
      rfl
  | case5 first second rest i csr hodd ih =>
    simp only [length_cons] at hfits
    obtain ⟨csr1, hmodify, hoctet1, haddr1⟩ :=
      csr.exists_pmpconfigModify first 1 (show i / 2 < 16 by omega) (by decide)
    have hbound : i + 1 + (second :: rest).length ≤ 32 := by
      rw [length_cons]
      omega
    obtain ⟨csr', hrest, hoctet, haddr⟩ := ih csr1 hbound
    refine ⟨csr', ?_, ?_, haddr.trans haddr1⟩
    · rw [enableRegions, if_neg hodd]
      exact bind_eq_some_iff.mpr ⟨csr1, hmodify, hrest⟩
    · rw [hoctet, hoctet1, show 4 * (i / 2) + 2 * 1 = i * 2 by omega,
        show (i + 1) * 2 = i * 2 + 2 by ring]
      rfl

structure EPMP where
  userPmpEnabled : Bool
  shadowUserPmpcfgs : List TORUserPMPCFG
  csr : Csr

/-- The loop of `configure_pmp` over the regions and their shadow registers,
with the first entry of region `i` at `entryOf i`. -/
def EPMP.shadowRegions (entryOf : ℕ → ℕ) : List (PmpRegion × TORUserPMPCFG) → ℕ → EPMP →
      Option (Except Unit Unit × EPMP)
  | [], _, pmp => some (.ok (), pmp)
  | (region, _) :: rest, i, pmp =>
    if region.cfg.get = (TORUserPMPCFG.ofPermissions .readWriteExecute).get then
      some (.error (), pmp)
    else do
      let csr ← pmp.csr.setAddresses region (entryOf i)
      shadowRegions entryOf rest (i + 1)
        { pmp with
          shadowUserPmpcfgs := pmp.shadowUserPmpcfgs.set i region.cfg
          csr := csr }

/-- `configure_pmp`: if user mode is active the octets are written at once. -/
def EPMP.configure (entryOf : ℕ → ℕ) (enableUserPmp : EPMP → Option (Except Unit Unit × EPMP))
    (regions : List PmpRegion) (pmp : EPMP) : Option (Except Unit Unit × EPMP) := do
  match ← shadowRegions entryOf (regions.zip pmp.shadowUserPmpcfgs) 0 pmp with
  | (.error (), pmp) => return (.error (), pmp)
  | (.ok (), pmp) =>
    if pmp.userPmpEnabled then enableUserPmp pmp
    else return (.ok (), pmp)

def Programmable (regions : List PmpRegion) : Prop :=
  ∀ region ∈ regions, region.cfg ≠ TORUserPMPCFG.ofPermissions .readWriteExecute

theorem get_eq_iff {cfg cfg' : TORUserPMPCFG} : cfg.get = cfg'.get ↔ cfg = cfg' := by
  constructor
  · intro h
    obtain ⟨_, _⟩ := cfg
    cases h
    rfl
  · intro h
    rw [h]

/-- What the loop leaves behind: the addresses of the regions up to the first
that cannot be programmed, and their octets in the shadow registers. -/
structure EPMP.Shadowed (pmp pmp' : EPMP) (first i : ℕ) (regions : List PmpRegion) : Prop where
  enabled : pmp'.userPmpEnabled = pmp.userPmpEnabled
  octet : pmp'.csr.octet = pmp.csr.octet
  pmpaddr : pmp'.csr.pmpaddr = writeAddresses regions (first + i * 2) pmp.csr.pmpaddr
  shadow : ∀ k, pmp'.shadowUserPmpcfgs[k]? =
    if i ≤ k ∧ k < i + regions.length then
      (regions.map (·.cfg))[k - i]?
    else pmp.shadowUserPmpcfgs[k]?

theorem EPMP.Shadowed.nil (pmp : EPMP) (first i : ℕ) : pmp.Shadowed pmp first i [] where
  enabled := rfl
  octet := rfl
  pmpaddr := rfl
  shadow := by
    intro k
    rw [if_neg]
    simp only [length_nil]
    omega

variable {regions : List PmpRegion}

theorem EPMP.Shadowed.cons {pmp pmp' : EPMP} {csr : Csr} {first i : ℕ} {region : PmpRegion}
    (hi : i < pmp.shadowUserPmpcfgs.length)
    (haddr : csr.pmpaddr = writeAddress region (first + i * 2) pmp.csr.pmpaddr)
    (hoctet : csr.octet = pmp.csr.octet)
    (h : EPMP.Shadowed { pmp with
      shadowUserPmpcfgs := pmp.shadowUserPmpcfgs.set i region.cfg
      csr := csr } pmp' first (i + 1) regions) : pmp.Shadowed pmp' first i (region :: regions) where
  enabled := h.enabled
  octet := h.octet.trans hoctet
  pmpaddr := by
    rw [h.pmpaddr, haddr, show first + (i + 1) * 2 = first + i * 2 + 2 by ring]
    rfl
  shadow := by
    intro k
    rw [h.shadow k]
    simp only [length_cons, map_cons, getElem?_set]
    rcases Nat.lt_trichotomy k i with hlt | heq | hgt
    · rw [if_neg (by omega), if_neg (by omega), if_neg (by omega)]
    · subst heq
      rw [if_neg (by omega), if_pos rfl, if_pos hi, if_pos (by omega),
        Nat.sub_self, getElem?_cons_zero]
    have hindex : k - i = k - (i + 1) + 1 := by omega
    rw [hindex, getElem?_cons_succ, if_neg (show i ≠ k by omega)]
    by_cases hin : k < i + 1 + regions.length
    · rw [if_pos (by omega), if_pos (by omega)]
    · rw [if_neg (by omega), if_neg (by omega)]

theorem exists_shadowRegions {entryOf : ℕ → ℕ} {first : ℕ} (hentry : ∀ i, entryOf i = first + i * 2)
    (pairs : List (PmpRegion × TORUserPMPCFG)) {i : ℕ} (pmp : EPMP)
    (hlength : i + pairs.length ≤ pmp.shadowUserPmpcfgs.length)
    (hfits : first + (i + pairs.length) * 2 ≤ 64) : ∃ result pmp' written,
      EPMP.shadowRegions entryOf pairs i pmp = some (result, pmp') ∧
      pmp.Shadowed pmp' first i written ∧ written <+: pairs.map Prod.fst ∧
      (Programmable (pairs.map Prod.fst) → result = .ok () ∧ written = pairs.map Prod.fst) ∧
      (¬ Programmable (pairs.map Prod.fst) → result = .error ()) := by
  induction pairs generalizing i pmp with
  | nil =>
    refine ⟨.ok (), pmp, [], rfl, .nil pmp first i, prefix_rfl, fun _ => ⟨rfl, rfl⟩, ?_⟩
    intro hnot
    exact absurd (forall_mem_nil _) hnot
  | cons pair rest ih =>
    obtain ⟨region, old⟩ := pair
    rw [length_cons] at hlength hfits
    by_cases hrwx : region.cfg = TORUserPMPCFG.ofPermissions .readWriteExecute
    · refine ⟨.error (), pmp, [], ?_, .nil pmp first i, nil_prefix, ?_, fun _ => rfl⟩
      · rw [EPMP.shadowRegions, if_pos (get_eq_iff.mpr hrwx)]
      · intro hall
        exact absurd hrwx (hall region mem_cons_self)
    obtain ⟨csr, hset, haddr, hoctet⟩ := pmp.csr.exists_setAddresses
      region (show first + i * 2 + 1 < 64 by omega)
    have hbound : i + 1 + rest.length ≤ (pmp.shadowUserPmpcfgs.set i region.cfg).length := by
      rw [length_set]
      omega
    obtain ⟨result, pmp', written, hrun, hshadow, hprefix, hok, herror⟩ :=
      ih { pmp with
        shadowUserPmpcfgs := pmp.shadowUserPmpcfgs.set i region.cfg
        csr := csr } hbound (by omega)
    have hiff : Programmable (((region, old) :: rest).map Prod.fst) ↔
        Programmable (rest.map Prod.fst) := by
      unfold Programmable
      rw [map_cons, forall_mem_cons]
      exact and_iff_right hrwx
    refine ⟨result, pmp', region :: written, ?_, .cons (by omega) haddr hoctet hshadow, ?_, ?_, ?_⟩
    · rw [EPMP.shadowRegions, if_neg (mt get_eq_iff.mp hrwx), hentry, hset]
      exact hrun
    · exact (prefix_cons_inj region).mpr hprefix
    · intro hall
      obtain ⟨hres, hwritten⟩ := hok (hiff.mp hall)
      exact ⟨hres, by rw [hwritten]; rfl⟩
    · intro hnot
      exact herror (mt hiff.mpr hnot)

namespace KernelProtectionMMLEPMP

def torRegionsOffset : ℕ := 1

def constAssertCheck (availableEntries mpuRegions : ℕ) : Prop :=
  5 ≤ availableEntries ∧ mpuRegions ≤ (availableEntries - 5) / 2

def enableUserPmp (pmp : EPMP) : Option (Except Unit Unit × EPMP) := do
  let csr ← enableRegions pmp.shadowUserPmpcfgs torRegionsOffset pmp.csr
  return (.ok (), { pmp with csr := csr, userPmpEnabled := true })

def configurePmp (regions : List PmpRegion) (pmp : EPMP) : Option (Except Unit Unit × EPMP) :=
  EPMP.configure (fun i => (i + torRegionsOffset) * 2) enableUserPmp regions pmp

end KernelProtectionMMLEPMP

/-- `EPMPDebugConfig`: whether the debug port is enabled. -/
inductive DebugConfig where
  | enable
  | disable
deriving DecidableEq, Repr

namespace DebugConfig

def torUserRegions : DebugConfig → ℕ
  | .enable => 4
  | .disable => 4

def torUserEntriesOffset : DebugConfig → ℕ
  | .enable => 0
  | .disable => 4

end DebugConfig

namespace EarlGreyEPMP

def torUserRegionsDebugDisable : ℕ := DebugConfig.disable.torUserRegions

/-- The slice of the shadow registers panics if the array is too short, the
assertion if the offset is odd. -/
def userEnableUserPmp (dbg : DebugConfig) (pmp : EPMP) : Option (Except Unit Unit × EPMP) :=
  if dbg.torUserEntriesOffset % 2 = 0 ∧ dbg.torUserRegions ≤ pmp.shadowUserPmpcfgs.length then do
    let csr ← enableRegions (pmp.shadowUserPmpcfgs.take dbg.torUserRegions)
      (dbg.torUserEntriesOffset / 2) pmp.csr
    return (.ok (), { pmp with csr := csr, userPmpEnabled := true })
  else none

def userConfigurePmp (dbg : DebugConfig) (regions : List PmpRegion)
    (pmp : EPMP) : Option (Except Unit Unit × EPMP) :=
  EPMP.configure (fun i => dbg.torUserEntriesOffset + i * 2) (userEnableUserPmp dbg) regions pmp

end EarlGreyEPMP

/-! ## What the registers hold afterwards -/

/-- The `regions` are in the entries from `first` on, two for each, and nothing
else has changed. -/
structure Programmed (before after : Csr) (first : ℕ) (regions : List PmpRegion) : Prop where
  octets : ∀ k (h : k < regions.length), after.octet (first + 2 * k) = off.get ∧
      after.octet (first + 2 * k + 1) = regions[k].cfg.get
  addresses : ∀ k (h : k < regions.length), regions[k].cfg ≠ off →
    after.pmpaddr (first + 2 * k) = regions[k].start >>> 2 ∧
      after.pmpaddr (first + 2 * k + 1) = regions[k].stop >>> 2
  others : ∀ entry, entry < first ∨ first + 2 * regions.length ≤ entry →
    after.octet entry = before.octet entry ∧ after.pmpaddr entry = before.pmpaddr entry

theorem programmed_of_writes {before after : Csr} {first : ℕ}
    (hoctet : after.octet = writeOctets (regions.map (·.cfg)) first before.octet)
    (haddr : after.pmpaddr = writeAddresses regions first before.pmpaddr) :
    Programmed before after first regions where
  octets := by
    intro k h
    rw [hoctet]
    have hlength : k < (regions.map (·.cfg)).length := by
      rwa [length_map]
    obtain ⟨hstart, hstop⟩ := writeOctets_at first before.octet hlength
    rw [getElem_map] at hstop
    exact ⟨hstart, hstop⟩
  addresses := by
    intro k h hon
    rw [haddr]
    exact writeAddresses_at before.pmpaddr h hon
  others := by
    intro entry h
    rw [hoctet, haddr]
    refine ⟨writeOctets_outside _ ?_, writeAddresses_outside _ h⟩
    rwa [length_map]

theorem configureRegions_programmed
    (h : regions.length ≤ 32) (csr : Csr) : ∃ csr', configureRegions regions 0 csr = some csr' ∧
      Programmed csr csr' 0 regions := by
  obtain ⟨csr', hrun, hoctet, haddr⟩ :=
    exists_configureRegions regions csr (Nat.zero_mod 2) (by omega)
  exact ⟨csr', hrun, programmed_of_writes hoctet haddr⟩

theorem writeOctets_idem (cfgs : List TORUserPMPCFG) (first : ℕ) (octets : ℕ → BitVec 8) :
    writeOctets cfgs first (writeOctets cfgs first octets) = writeOctets cfgs first octets := by
  funext entry
  by_cases houtside : entry < first ∨ first + 2 * cfgs.length ≤ entry
  · rw [writeOctets_outside _ houtside]
  obtain ⟨k, hk⟩ : ∃ k, entry = first + 2 * k ∨ entry = first + 2 * k + 1 :=
    ⟨(entry - first) / 2, by omega⟩
  have hlt : k < cfgs.length := by omega
  have hinner := writeOctets_at first octets hlt
  have houter := writeOctets_at first (writeOctets cfgs first octets) hlt
  rcases hk with rfl | rfl
  · rw [houter.1, hinner.1]
  · rw [houter.2, hinner.2]

/-- Enabling writes the shadow registers to the entries from `first` on. -/
def EnablesFrom (enable : EPMP → Option (Except Unit Unit × EPMP)) (first mpuRegions : ℕ) : Prop :=
  ∀ pmp : EPMP, pmp.shadowUserPmpcfgs.length = mpuRegions → ∃ csr, enable pmp = some (.ok (),
        { pmp with csr := csr, userPmpEnabled := true }) ∧
      csr.octet = writeOctets pmp.shadowUserPmpcfgs first pmp.csr.octet ∧
      csr.pmpaddr = pmp.csr.pmpaddr

section ShadowDrivers

variable {entryOf : ℕ → ℕ} {enable : EPMP → Option (Except Unit Unit × EPMP)}
  {first : ℕ} {regions : List PmpRegion} {pmp : EPMP}

theorem EPMP.Shadowed.shadow_eq {pmp' : EPMP} (h : pmp.Shadowed pmp' first 0 regions)
    (hlength : pmp.shadowUserPmpcfgs.length = regions.length) :
    pmp'.shadowUserPmpcfgs = regions.map (·.cfg) := by
  apply ext_getElem?
  intro k
  rw [h.shadow k]
  by_cases hk : k < regions.length
  · rw [if_pos (by omega), Nat.sub_zero]
  · rw [if_neg (by omega), getElem?_eq_none (by omega),
      getElem?_eq_none (by rw [length_map]; omega)]

section

variable (hentry : ∀ i, entryOf i = first + i * 2)
include hentry

variable (hlength : pmp.shadowUserPmpcfgs.length = regions.length)
  (hfits : first + regions.length * 2 ≤ 64)
include hlength hfits

theorem exists_shadowRegions_zip : ∃ result pmp' written,
      EPMP.shadowRegions entryOf (regions.zip pmp.shadowUserPmpcfgs) 0 pmp = some (result, pmp') ∧
      pmp.Shadowed pmp' first 0 written ∧ written <+: regions ∧
      (Programmable regions → result = .ok () ∧ written = regions) ∧
      (¬ Programmable regions → result = .error ()) := by
  have hzip : (regions.zip pmp.shadowUserPmpcfgs).map Prod.fst = regions := map_fst_zip hlength.ge
  have hzipLength : (regions.zip pmp.shadowUserPmpcfgs).length = regions.length := by
    rw [length_zip, hlength, Nat.min_self]
  have hrun := exists_shadowRegions hentry
    (regions.zip pmp.shadowUserPmpcfgs) (i := 0) pmp (by omega) (by omega)
  rwa [hzip] at hrun

theorem EPMP.configure_enable (henable : EnablesFrom enable first regions.length)
    (hregions : Programmable regions) :
    ∃ pmp1 pmp2, EPMP.configure entryOf enable regions pmp = some (.ok (), pmp1) ∧
      enable pmp1 = some (.ok (), pmp2) ∧ Programmed pmp.csr pmp2.csr first regions := by
  obtain ⟨_, shadowed, written, hrun, hshadowed, -, hok, -⟩ :=
    exists_shadowRegions_zip hentry hlength hfits
  obtain ⟨rfl, rfl⟩ := hok hregions
  have hcfgs := hshadowed.shadow_eq hlength
  have haddr := hshadowed.pmpaddr
  rw [Nat.add_zero] at haddr
  have hcount : shadowed.shadowUserPmpcfgs.length = written.length := by
    rw [hcfgs, length_map]
  obtain ⟨csr1, henabled, hoctet1, haddr1⟩ := henable shadowed hcount
  rw [hcfgs, hshadowed.octet] at hoctet1
  by_cases hon : shadowed.userPmpEnabled
  · obtain ⟨_, henabled2, hoctet2, haddr2⟩ := henable
      { shadowed with csr := csr1, userPmpEnabled := true } hcount
    refine ⟨_, _, ?_, henabled2, programmed_of_writes ?_ ?_⟩
    · simp [EPMP.configure, hrun, if_pos hon, henabled]
    · rw [hoctet2, hcfgs, hoctet1, writeOctets_idem]
    · rw [haddr2, haddr1, haddr]
  refine ⟨shadowed, _, ?_, henabled, programmed_of_writes hoctet1 ?_⟩
  · simp only [EPMP.configure, hrun, bind_eq_bind, bind_some, if_neg hon]
    rfl
  · rw [haddr1, haddr]

theorem EPMP.configure_refused (hregions : ¬ Programmable regions) :
    ∃ pmp', EPMP.configure entryOf enable regions pmp = some (.error (), pmp') ∧
      ∀ entry, entry < first ∨ first + 2 * regions.length ≤ entry →
        pmp'.csr.octet entry = pmp.csr.octet entry ∧
          pmp'.csr.pmpaddr entry = pmp.csr.pmpaddr entry := by
  obtain ⟨_, pmp', _, hrun, hshadowed, hprefix, -, herror⟩ :=
    exists_shadowRegions_zip hentry hlength hfits
  obtain rfl := herror hregions
  have hle := hprefix.length_le
  refine ⟨pmp', ?_, ?_⟩
  · simp only [EPMP.configure, hrun, bind_eq_bind]
    rfl
  · intro entry houtside
    rw [hshadowed.octet, hshadowed.pmpaddr]
    exact ⟨rfl, writeAddresses_outside _ (by omega)⟩

end

end ShadowDrivers

theorem KernelProtectionMMLEPMP.enablesFrom {mpuRegions : ℕ} (h : mpuRegions ≤ 31) :
    EnablesFrom KernelProtectionMMLEPMP.enableUserPmp 2 mpuRegions := by
  intro pmp hlength
  obtain ⟨csr, hrun, hoctet, haddr⟩ := exists_enableRegions pmp.shadowUserPmpcfgs pmp.csr
    (show KernelProtectionMMLEPMP.torRegionsOffset + pmp.shadowUserPmpcfgs.length ≤ 32 by
        unfold KernelProtectionMMLEPMP.torRegionsOffset
        omega)
  refine ⟨csr, ?_, hoctet, haddr⟩
  simp only [KernelProtectionMMLEPMP.enableUserPmp, hrun, bind_eq_bind]
  rfl

theorem EarlGreyEPMP.enablesFrom (dbg : DebugConfig) :
    EnablesFrom (EarlGreyEPMP.userEnableUserPmp dbg) dbg.torUserEntriesOffset
      EarlGreyEPMP.torUserRegionsDebugDisable := by
  intro pmp hlength
  have hregions : dbg.torUserRegions = pmp.shadowUserPmpcfgs.length := by
    rw [hlength]
    cases dbg <;> rfl
  have heven : dbg.torUserEntriesOffset % 2 = 0 := by
    cases dbg <;> rfl
  have hfits : dbg.torUserEntriesOffset / 2 + pmp.shadowUserPmpcfgs.length ≤ 32 := by
    rw [hlength]
    cases dbg <;> decide
  obtain ⟨csr, hrun, hoctet, haddr⟩ := exists_enableRegions pmp.shadowUserPmpcfgs pmp.csr hfits
  refine ⟨csr, ?_, ?_, haddr⟩
  · rw [EarlGreyEPMP.userEnableUserPmp, if_pos ⟨heven, hregions.le⟩, hregions, take_length, hrun]
    rfl
  · rw [hoctet, Nat.div_mul_cancel (Nat.dvd_of_mod_eq_zero heven)]

/-- The driver programs the regions, or refuses an array with a region that the
ePMP does not have and leaves the entries of others alone. -/
def EPMP.ProgramsUser (configure : List PmpRegion → EPMP → Option (Except Unit Unit × EPMP))
    (enable : EPMP → Option (Except Unit Unit × EPMP)) (first : ℕ)
    (regions : List PmpRegion) (pmp : EPMP) : Prop :=
  (Programmable regions → ∃ pmp1 pmp2, configure regions pmp = some (.ok (), pmp1) ∧
      enable pmp1 = some (.ok (), pmp2) ∧ Programmed pmp.csr pmp2.csr first regions) ∧
  (¬ Programmable regions → ∃ pmp', configure regions pmp = some (.error (), pmp') ∧
      ∀ entry, entry < first ∨ first + 2 * regions.length ≤ entry →
        pmp'.csr.octet entry = pmp.csr.octet entry ∧ pmp'.csr.pmpaddr entry = pmp.csr.pmpaddr entry)

theorem EPMP.programsUser {entryOf : ℕ → ℕ}
    {enable : EPMP → Option (Except Unit Unit × EPMP)} {first : ℕ} {pmp : EPMP}
    (hentry : ∀ i, entryOf i = first + i * 2) (henable : EnablesFrom enable first regions.length)
    (hlength : pmp.shadowUserPmpcfgs.length = regions.length)
    (hfits : first + regions.length * 2 ≤ 64) :
    EPMP.ProgramsUser (EPMP.configure entryOf enable) enable first regions pmp :=
  ⟨EPMP.configure_enable hentry hlength hfits henable, EPMP.configure_refused hentry hlength hfits⟩

/-- Every driver leaves the regions in the entries meant for them and all other
entries as they were; the two ePMP drivers refuse a region that is readable,
writeable and executable. -/
theorem pmp_programming_exact : (∀ availableEntries (regions : List PmpRegion) csr,
      Probed availableEntries → SimplePMP.constAssertCheck availableEntries regions.length →
      ∃ csr', SimplePMP.configurePmp regions csr = some (.ok (), csr') ∧
        Programmed csr csr' 0 regions) ∧ (∀ availableEntries (regions : List PmpRegion) csr,
      Probed availableEntries →
      KernelProtectionPMP.constAssertCheck availableEntries regions.length →
      ∃ csr', KernelProtectionPMP.configurePmp regions csr = some (.ok (), csr') ∧
        Programmed csr csr' 0 regions) ∧
    (∀ availableEntries (regions : List PmpRegion) (pmp : EPMP), Probed availableEntries →
      KernelProtectionMMLEPMP.constAssertCheck availableEntries regions.length →
      pmp.shadowUserPmpcfgs.length = regions.length →
      EPMP.ProgramsUser KernelProtectionMMLEPMP.configurePmp
        KernelProtectionMMLEPMP.enableUserPmp 2 regions pmp) ∧
    (∀ (dbg : DebugConfig) (regions : List PmpRegion) (pmp : EPMP),
      regions.length = dbg.torUserRegions → pmp.shadowUserPmpcfgs.length =
        EarlGreyEPMP.torUserRegionsDebugDisable →
      EPMP.ProgramsUser (EarlGreyEPMP.userConfigurePmp dbg)
        (EarlGreyEPMP.userEnableUserPmp dbg) dbg.torUserEntriesOffset regions pmp) := by
  refine ⟨?_, ?_, ?_, ?_⟩
  · intro availableEntries regions csr hprobed hcheck
    have hle := hprobed.le
    unfold SimplePMP.constAssertCheck at hcheck
    obtain ⟨csr', hrun, hprogrammed⟩ :=
      configureRegions_programmed (show regions.length ≤ 32 by omega) csr
    refine ⟨csr', ?_, hprogrammed⟩
    rw [SimplePMP.configurePmp, hrun]
    rfl
  · intro availableEntries regions csr hprobed hcheck
    have hle := hprobed.le
    unfold KernelProtectionPMP.constAssertCheck at hcheck
    obtain ⟨csr', hrun, hprogrammed⟩ :=
      configureRegions_programmed (show regions.length ≤ 32 by omega) csr
    refine ⟨csr', ?_, hprogrammed⟩
    rw [KernelProtectionPMP.configurePmp, hrun]
    rfl
  · intro availableEntries regions pmp hprobed hcheck hlength
    have hle := hprobed.le
    unfold KernelProtectionMMLEPMP.constAssertCheck at hcheck
    refine EPMP.programsUser ?_ (KernelProtectionMMLEPMP.enablesFrom (by omega)) hlength (by omega)
    intro i
    simp only [KernelProtectionMMLEPMP.torRegionsOffset]
    ring
  · intro dbg regions pmp hregions hshadow
    have hlength : regions.length = EarlGreyEPMP.torUserRegionsDebugDisable := by
      rw [hregions]
      cases dbg <;> rfl
    have henable := EarlGreyEPMP.enablesFrom dbg
    rw [← hlength] at henable
    refine EPMP.programsUser (fun _ => rfl) henable (hshadow.trans hlength.symm) ?_
    rw [hregions]
    cases dbg <;> decide

/-- Registers and shadow registers after a reset, and a region of each kind. -/
def clearedCsr : Csr := ⟨fun _ => 0, fun _ => 0⟩

def readOnlyRegion : PmpRegion := ⟨.ofPermissions .readOnly, 0x100, 0x200⟩

def readWriteExecuteRegion : PmpRegion :=
  ⟨.ofPermissions .readWriteExecute, 0x100, 0x200⟩

theorem pmp_programming_exact_small : (∃ csr', SimplePMP.configurePmp [readOnlyRegion] clearedCsr =
        some (.ok (), csr') ∧ Programmed clearedCsr csr' 0 [readOnlyRegion]) ∧
    (∃ csr', KernelProtectionPMP.configurePmp [readOnlyRegion] clearedCsr = some (.ok (), csr') ∧
      Programmed clearedCsr csr' 0 [readOnlyRegion]) ∧
    EPMP.ProgramsUser KernelProtectionMMLEPMP.configurePmp
      KernelProtectionMMLEPMP.enableUserPmp 2 [readOnlyRegion] ⟨false, [off], clearedCsr⟩ ∧
    EPMP.ProgramsUser (EarlGreyEPMP.userConfigurePmp .disable)
      (EarlGreyEPMP.userEnableUserPmp .disable) 4
      [readOnlyRegion, readOnlyRegion, readOnlyRegion, readOnlyRegion]
      ⟨false, [off, off, off, off], clearedCsr⟩ := by
  have hprobed : Probed 9 := ⟨clearedCsr, _, rfl⟩
  obtain ⟨hsimple, hkernel, hmml, hearlGrey⟩ := pmp_programming_exact
  refine ⟨hsimple 9 _ _ hprobed ?_, hkernel 9 _ _ hprobed ?_,
    hmml 9 _ _ hprobed ?_ rfl, hearlGrey .disable _ _ rfl rfl⟩
  · show 1 ≤ 9 / 2
    decide
  all_goals exact ⟨by decide, by decide⟩

/-- A region that is readable, writeable and executable does not get into the
registers of the ePMP. -/
theorem mmlepmp_refuses_rwx :
    ∃ pmp1 pmp2, KernelProtectionMMLEPMP.configurePmp [readWriteExecuteRegion]
        ⟨false, [off], clearedCsr⟩ = some (.error (), pmp1) ∧
      KernelProtectionMMLEPMP.enableUserPmp pmp1 = some (.ok (), pmp2) ∧
      ¬ Programmed clearedCsr pmp2.csr 2 [readWriteExecuteRegion] := by
  refine ⟨_, _, rfl, rfl, ?_⟩
  intro h
  exact absurd (h.octets 0 (by decide)).2 (by decide)

end TockKernel.Pmp

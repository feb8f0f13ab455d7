import TockKernel.Mpu

/-!
# PMP entries and the registers that hold them

An entry of the RISC-V physical memory protection unit is an address register
`pmpaddrX` and an octet of configuration, and four octets share a register
`pmpcfgX`. A write of a word or half-word by the drivers is the same as writing
its octets one entry at a time.
-/

namespace TockKernel.Pmp

open Word Function

/-- An unlocked octet in the address mode TOR: `pmpcfg_octet` with `a` set to
TOR and `l` clear. -/
def torOctet (r w x : Bool) : BitVec 8 :=
  place 8 0 (BitVec.ofBool r) ||| place 8 1 (BitVec.ofBool w) |||
    place 8 2 (BitVec.ofBool x) ||| place 8 3 1#2

def permissionsOctet : Permissions → BitVec 8
  | .readWriteExecute => torOctet true true true
  | .readWriteOnly => torOctet true true false
  | .readExecuteOnly => torOctet true false true
  | .readOnly => torOctet true false false
  | .executeOnly => torOctet false false true

/-- The octet of a region for user mode: off, or unlocked and in the mode
TOR. -/
structure TORUserPMPCFG where
  get : BitVec 8
  valid : get = 0 ∨ ∃ permissions, get = permissionsOctet permissions
deriving DecidableEq

namespace TORUserPMPCFG

def off : TORUserPMPCFG := ⟨0, .inl rfl⟩

def ofPermissions (permissions : Permissions) : TORUserPMPCFG :=
  ⟨permissionsOctet permissions, .inr ⟨permissions, rfl⟩⟩

theorem ofPermissions_ne_off (permissions : Permissions) : ofPermissions permissions ≠ off := by
  intro h
  have hget : permissionsOctet permissions = 0 := congrArg get h
  cases permissions <;> exact absurd hget (by decide)

end TORUserPMPCFG

/-- A region as the drivers get it: its octet, its start and its end. -/
structure PmpRegion where
  cfg : TORUserPMPCFG
  start : ℕ
  stop : ℕ
deriving DecidableEq

/-! ## The registers -/

/-- `FieldValue` of the register library. -/
structure FieldValue where
  mask : BitVec 32
  value : BitVec 32

def FieldValue.new (mask : BitVec 32) (shift : ℕ) (value : BitVec 32) : FieldValue :=
  ⟨mask <<< shift, (value &&& mask) <<< shift⟩

def FieldValue.modify (field : FieldValue) (value : BitVec 32) : BitVec 32 :=
  (value &&& ~~~field.mask) ||| field.value

def fromBeBytes (b3 b2 b1 b0 : BitVec 8) : BitVec 32 :=
  place 32 24 b3 ||| place 32 16 b2 ||| place 32 8 b1 ||| place 32 0 b0

/-- The registers `pmpcfg0` to `pmpcfg15` and `pmpaddr0` to `pmpaddr63`; any
other index is `unreachable!`. -/
structure Csr where
  pmpcfg : ℕ → BitVec 32
  pmpaddr : ℕ → ℕ

namespace Csr

def pmpconfigGet (index : ℕ) (csr : Csr) : Option (BitVec 32) :=
  if index < 16 then some (csr.pmpcfg index) else none

def pmpconfigSet (index : ℕ) (value : BitVec 32) (csr : Csr) : Option Csr :=
  if index < 16 then
    some { csr with pmpcfg := Function.update csr.pmpcfg index value }
  else none

def pmpconfigModify (index : ℕ) (field : FieldValue) (csr : Csr) : Option Csr := do
  let value ← csr.pmpconfigGet index
  csr.pmpconfigSet index (field.modify value)

def pmpaddrSet (index value : ℕ) (csr : Csr) : Option Csr :=
  if index < 64 then
    some { csr with pmpaddr := Function.update csr.pmpaddr index value }
  else none

def octet (csr : Csr) (entry : ℕ) : BitVec 8 :=
  (csr.pmpcfg (entry / 4)).extractLsb' (8 * (entry % 4)) 8

end Csr

/-! ## Writing one entry at a time -/

/-- Octets for the regions `cfgs`, two entries each, from entry `first` on. -/
def writeOctets : List TORUserPMPCFG → ℕ → (ℕ → BitVec 8) → ℕ → BitVec 8
  | [], _, octets => octets
  | cfg :: cfgs, first, octets =>
    writeOctets cfgs (first + 2)
      (Function.update (Function.update octets first 0) (first + 1) cfg.get)

def writeAddress (region : PmpRegion) (first : ℕ) (addresses : ℕ → ℕ) : ℕ → ℕ :=
  if region.cfg = .off then addresses
  else Function.update (Function.update addresses first (region.start >>> 2))
    (first + 1) (region.stop >>> 2)

def writeAddresses : List PmpRegion → ℕ → (ℕ → ℕ) → ℕ → ℕ
  | [], _, addresses => addresses
  | region :: regions, first, addresses =>
    writeAddresses regions (first + 2) (writeAddress region first addresses)

variable {entry first : ℕ}

theorem writeOctets_outside {cfgs : List TORUserPMPCFG} (octets : ℕ → BitVec 8)
    (h : entry < first ∨ first + 2 * cfgs.length ≤ entry) :
    writeOctets cfgs first octets entry = octets entry := by
  induction cfgs generalizing first octets with
  | nil => rfl
  | cons cfg cfgs ih =>
    rw [List.length_cons] at h
    rw [writeOctets, ih _ (by omega), update_of_ne (by omega), update_of_ne (by omega)]

theorem writeOctets_at {cfgs : List TORUserPMPCFG} {k : ℕ} (first : ℕ)
    (octets : ℕ → BitVec 8) (h : k < cfgs.length) :
    writeOctets cfgs first octets (first + 2 * k) = 0 ∧
      writeOctets cfgs first octets (first + 2 * k + 1) = cfgs[k].get := by
  induction cfgs generalizing first octets k with
  | nil => exact absurd h (Nat.not_lt_zero k)
  | cons cfg cfgs ih =>
    cases k with
    | zero =>
      simp only [writeOctets, Nat.mul_zero, Nat.add_zero]
      rw [writeOctets_outside _ (by omega), writeOctets_outside _ (by omega), update_self,
        update_of_ne (by omega), update_self]
      exact ⟨rfl, rfl⟩
    | succ k =>
      rw [show first + 2 * (k + 1) = first + 2 + 2 * k by ring]
      exact ih _ _ (Nat.lt_of_succ_lt_succ h)

variable (addresses : ℕ → ℕ)

theorem writeAddress_of_ne {region : PmpRegion} (h : entry ≠ first) (h' : entry ≠ first + 1) :
    writeAddress region first addresses entry = addresses entry := by
  unfold writeAddress
  split
  · rfl
  · rw [update_of_ne h', update_of_ne h]

theorem writeAddresses_outside {regions : List PmpRegion}
    (h : entry < first ∨ first + 2 * regions.length ≤ entry) :
    writeAddresses regions first addresses entry = addresses entry := by
  induction regions generalizing first addresses with
  | nil => rfl
  | cons region regions ih =>
    rw [List.length_cons] at h
    rw [writeAddresses, ih _ (by omega), writeAddress_of_ne _ (by omega) (by omega)]

theorem writeAddresses_at {regions : List PmpRegion} {k : ℕ}
    (h : k < regions.length) (hon : regions[k].cfg ≠ .off) :
    writeAddresses regions first addresses (first + 2 * k) = regions[k].start >>> 2 ∧
      writeAddresses regions first addresses (first + 2 * k + 1) = regions[k].stop >>> 2 := by
  induction regions generalizing first addresses k with
  | nil => exact absurd h (Nat.not_lt_zero k)
  | cons region regions ih =>
    cases k with
    | zero =>
      rw [List.getElem_cons_zero] at hon
      simp only [writeAddresses, Nat.mul_zero, Nat.add_zero]
      rw [writeAddresses_outside _ (by omega), writeAddresses_outside _ (by omega), writeAddress,
        if_neg hon, update_self, update_of_ne (by omega), update_self]
      exact ⟨rfl, rfl⟩
    | succ k =>
      rw [show first + 2 * (k + 1) = first + 2 + 2 * k by ring]
      exact ih _ (Nat.lt_of_succ_lt_succ h) hon

/-! ## Words and half-words -/

namespace Csr

theorem octet_word (a b : TORUserPMPCFG) {j : ℕ} (hj : j < 4) :
    (fromBeBytes b.get TORUserPMPCFG.off.get a.get TORUserPMPCFG.off.get).extractLsb' (8 * j) 8 =
      if j = 1 then a.get else if j = 3 then b.get else 0 := by
  have hoff : TORUserPMPCFG.off.get = 0 := rfl
  rw [hoff]
  interval_cases j <;>
    simp [fromBeBytes, BitVec.extractLsb'_or, extractLsb_place, extractLsb_place_of_apart]

theorem octet_modify_half (a : TORUserPMPCFG) (value : BitVec 32) {half j : ℕ}
    (hhalf : half < 2) (hj : j < 4) : ((FieldValue.new 0x0000FFFF (16 * half)
      (fromBeBytes 0 0 a.get TORUserPMPCFG.off.get)).modify value).extractLsb' (8 * j) 8 =
      if j = 2 * half then 0 else if j = 2 * half + 1 then a.get
      else value.extractLsb' (8 * j) 8 := by
  have hoff : TORUserPMPCFG.off.get = 0 := rfl
  rw [hoff]
  interval_cases half <;> interval_cases j <;> ext i hi <;>
    simp [FieldValue.modify, FieldValue.new, fromBeBytes, place] <;>
    interval_cases i <;> simp

def withConfig (csr : Csr) (index : ℕ) (value : BitVec 32) : Csr :=
  { csr with pmpcfg := Function.update csr.pmpcfg index value }

theorem octet_withConfig (csr : Csr) (index : ℕ) (value : BitVec 32) (entry : ℕ) :
    (csr.withConfig index value).octet entry =
      if entry / 4 = index then value.extractLsb' (8 * (entry % 4)) 8
      else csr.octet entry := by
  unfold octet withConfig
  simp only [update_apply]
  split <;> rfl

theorem exists_pmpconfigSet (csr : Csr) (a b : TORUserPMPCFG) {index : ℕ} (h : index < 16) :
    ∃ csr', csr.pmpconfigSet index (fromBeBytes b.get TORUserPMPCFG.off.get
        a.get TORUserPMPCFG.off.get) = some csr' ∧
      csr'.octet = writeOctets [a, b] (4 * index) csr.octet ∧ csr'.pmpaddr = csr.pmpaddr := by
  refine ⟨csr.withConfig index _, if_pos h, ?_, rfl⟩
  funext entry
  have hj : entry % 4 < 4 := Nat.mod_lt entry (by decide)
  rw [octet_withConfig, octet_word a b hj]
  simp only [writeOctets, update_apply]
  split_ifs <;> first | rfl | omega

theorem exists_pmpconfigModify (csr : Csr) (a : TORUserPMPCFG)
    (half : ℕ) {index : ℕ} (h : index < 16) (hhalf : half < 2) :
    ∃ csr', csr.pmpconfigModify index (FieldValue.new 0x0000FFFF (16 * half)
        (fromBeBytes 0 0 a.get TORUserPMPCFG.off.get)) = some csr' ∧
      csr'.octet = writeOctets [a] (4 * index + 2 * half) csr.octet ∧
      csr'.pmpaddr = csr.pmpaddr := by
  refine ⟨csr.withConfig index ((FieldValue.new 0x0000FFFF (16 * half)
      (fromBeBytes 0 0 a.get TORUserPMPCFG.off.get)).modify (csr.pmpcfg index)), ?_, ?_, rfl⟩
  · simp only [pmpconfigModify, pmpconfigGet, pmpconfigSet, if_pos h]
    rfl
  · funext entry
    have hj : entry % 4 < 4 := Nat.mod_lt entry (by decide)
    rw [octet_withConfig, octet_modify_half a _ hhalf hj]
    simp only [writeOctets, update_apply]
    by_cases hword : entry / 4 = index
    · have hsame : (csr.pmpcfg index).extractLsb' (8 * (entry % 4)) 8 = csr.octet entry := by
        rw [octet, hword]
      split_ifs <;> first | rfl | omega
    · split_ifs <;> first | rfl | omega

def setAddresses (region : PmpRegion) (first : ℕ) (csr : Csr) : Option Csr :=
  if region.cfg ≠ .off then do
    let csr ← csr.pmpaddrSet first (region.start >>> 2)
    csr.pmpaddrSet (first + 1) (region.stop >>> 2)
  else some csr

theorem exists_setAddresses (csr : Csr) (region : PmpRegion) {first : ℕ} (h : first + 1 < 64) :
    ∃ csr', csr.setAddresses region first = some csr' ∧
      csr'.pmpaddr = writeAddress region first csr.pmpaddr ∧ csr'.octet = csr.octet := by
  unfold setAddresses writeAddress
  by_cases hoff : region.cfg = .off
  · rw [if_neg (not_not.mpr hoff), if_pos hoff]
    exact ⟨csr, rfl, rfl, rfl⟩
  rw [if_pos hoff, if_neg hoff]
  simp only [pmpaddrSet, if_pos h, if_pos (Nat.lt_of_succ_lt h)]
  exact ⟨_, rfl, rfl, rfl⟩

end Csr

end TockKernel.Pmp

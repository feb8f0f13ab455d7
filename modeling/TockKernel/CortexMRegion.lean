import TockKernel.Math
import TockKernel.Mpu

/-!
# Regions of the Cortex-M MPU

A `CortexMRegion` holds the values of the region base address register (RBAR)
and the region attribute and size register (RASR), next to the memory the region
stands for in the kernel. The second half of the file reads the two registers
as the hardware does.
-/

namespace TockKernel.CortexM

open Arithmetic Word
open BitVec (extractLsb'_or ofNat or_zero toNat_ofNat zero_or)

def accessFields : Permissions → BitVec 3 × BitVec 1
  | .readWriteExecute => (0b011, 0)
  | .readWriteOnly => (0b011, 1)
  | .readExecuteOnly => (0b010, 0)
  | .readOnly => (0b010, 1)
  | .executeOnly => (0b001, 0)

structure CortexMRegion where
  location : Option (ℕ × ℕ)
  baseAddress : BitVec 32
  attributes : BitVec 32
deriving DecidableEq, Repr

/-- All subregions disabled but those from `minSubregion` to `maxSubregion`. -/
def subregionMask (profile : Profile) (minSubregion maxSubregion : ℕ) : Except Trap (BitVec 8) :=
  (List.range' minSubregion (maxSubregion + 1 - minSubregion)).foldlM (fun res i => do
      let bit ← shl 8 profile 1 i
      return res ^^^ BitVec.ofNat 8 bit)
    0xFF

namespace CortexMRegion

def enabledAttributes (sizeValue : ℕ) (permissions : Permissions) : BitVec 32 :=
  place 32 0 1#1 ||| place 32 1 (BitVec.ofNat 5 sizeValue) |||
    place 32 24 (accessFields permissions).1 ||| place 32 28 (accessFields permissions).2

def new (profile : Profile) (logicalStart logicalSize regionStart regionSize regionNum : ℕ)
    (subregions : Option (ℕ × ℕ)) (permissions : Permissions) : Except Trap CortexMRegion := do
  let baseAddress := place 32 5 (BitVec.ofNat 27 (regionStart >>> 5)) |||
    place 32 4 1#1 ||| place 32 0 (BitVec.ofNat 4 regionNum)
  let sizeValue ← sub 32 profile (Math.logBaseTwo regionSize) 1
  let attributes := enabledAttributes sizeValue permissions
  match subregions with
  | none =>
    return ⟨some (logicalStart, logicalSize), baseAddress, attributes⟩
  | some (minSubregion, maxSubregion) =>
    let mask ← subregionMask profile minSubregion maxSubregion
    return ⟨some (logicalStart, logicalSize), baseAddress, attributes ||| place 32 8 mask⟩

def empty (regionNum : ℕ) : CortexMRegion where
  location := none
  baseAddress := place 32 4 1#1 ||| place 32 0 (BitVec.ofNat 4 regionNum)
  attributes := 0

def overlaps (profile : Profile) (r : CortexMRegion)
    (otherStart otherSize : ℕ) : Except Trap Bool := do
  let otherEnd ← add 32 profile otherStart otherSize
  match r.location with
  | none => return false
  | some (regionStart, regionSize) =>
    let regionEnd ← add 32 profile regionStart regionSize
    return decide (regionStart < otherEnd ∧ otherStart < regionEnd)

/-! ## What the hardware reads -/

variable (r : CortexMRegion)

def enabled : Bool :=
  r.attributes.extractLsb' 0 1 == 1

def sizeBits : ℕ :=
  (r.attributes.extractLsb' 1 5).toNat + 1

def size : ℕ := 2 ^ r.sizeBits

def base : ℕ :=
  (r.baseAddress.extractLsb' 5 27).toNat * 32

def disabledSubregions : BitVec 8 :=
  r.attributes.extractLsb' 8 8

/-- The access permissions (AP) and the execute never bit (XN). -/
def access : BitVec 3 × BitVec 1 :=
  (r.attributes.extractLsb' 24 3, r.attributes.extractLsb' 28 1)

/-- The region covers the address, in a subregion that is not disabled; `access`
says what may be done there. -/
def Accessible (address : ℕ) : Prop :=
  r.enabled = true ∧ address / r.size = r.base / r.size ∧
    r.disabledSubregions.getLsbD (address % r.size / (r.size / 8)) = false

instance (r : CortexMRegion) (address : ℕ) : Decidable (r.Accessible address) :=
  inferInstanceAs (Decidable (_ ∧ _ ∧ _))

theorem not_accessible_empty (regionNum address : ℕ) : ¬ (empty regionNum).Accessible address := by
  rintro ⟨henabled, -, -⟩
  simp [enabled, empty] at henabled

end CortexMRegion

/-! ## The subregion mask -/

theorem toggle_distinct (profile : Profile) (bits : List ℕ)
    (hlt : ∀ i ∈ bits, i < 8) (hnodup : bits.Nodup) (res : BitVec 8) :
    ∃ mask, bits.foldlM (fun res i => do
        let bit ← shl 8 profile 1 i
        return res ^^^ ofNat 8 bit) res = .ok mask ∧
      ∀ j < 8, mask.getLsbD j = (res.getLsbD j ^^ decide (j ∈ bits)) := by
  induction bits generalizing res with
  | nil => exact ⟨res, rfl, by simp⟩
  | cons i rest ih =>
    obtain ⟨hi, hrest⟩ := List.forall_mem_cons.mp hlt
    obtain ⟨hfresh, hnodup⟩ := List.nodup_cons.mp hnodup
    obtain ⟨mask, hmask, hbits⟩ := ih hrest hnodup (res ^^^ ofNat 8 ((1 <<< i) % 2 ^ 8))
    refine ⟨mask, ?_, ?_⟩
    · rw [List.foldlM_cons, shl_of_lt profile hi]
      exact hmask
    · intro j hj
      have hone : (ofNat 8 ((1 <<< i) % 2 ^ 8)).getLsbD j = decide (i = j) := by
        rw [BitVec.getLsbD_ofNat, Nat.testBit_mod_two_pow,
          Nat.one_shiftLeft, Nat.testBit_two_pow, decide_eq_true hj, Bool.true_and, Bool.true_and]
      rw [hbits j hj, BitVec.getLsbD_xor, hone]
      by_cases hij : i = j
      · subst hij
        simp [hfresh]
      · simp [hij, Ne.symm hij]

theorem subregionMask_ok (profile : Profile) (minSubregion : ℕ)
    {maxSubregion : ℕ} (hmax : maxSubregion < 8) :
    ∃ mask, subregionMask profile minSubregion maxSubregion = .ok mask ∧
      ∀ j < 8, mask.getLsbD j = false ↔ minSubregion ≤ j ∧ j ≤ maxSubregion := by
  obtain ⟨mask, hmask, hbits⟩ := toggle_distinct profile
    (List.range' minSubregion (maxSubregion + 1 - minSubregion))
    (by intro i hi; rw [List.mem_range'_1] at hi; omega) (List.nodup_range' ..) 0xFF
  refine ⟨mask, hmask, ?_⟩
  intro j hj
  have hones : (0xFF : BitVec 8).getLsbD j := by
    interval_cases j <;> rfl
  rw [hbits j hj, hones, Bool.true_xor, Bool.not_eq_false', decide_eq_true_iff, List.mem_range'_1]
  omega

theorem subregionMask_release (minSubregion maxSubregion : ℕ) :
    ∃ mask, subregionMask .release minSubregion maxSubregion = .ok mask := by
  unfold subregionMask
  generalize List.range' minSubregion (maxSubregion + 1 - minSubregion) = bits
  generalize (0xFF : BitVec 8) = res
  induction bits generalizing res with
  | nil => exact ⟨res, rfl⟩
  | cons i rest ih =>
    have hbit : ∃ bit, shl 8 .release 1 i = .ok bit := by
      unfold shl
      split <;> exact ⟨_, rfl⟩
    obtain ⟨bit, hbit⟩ := hbit
    rw [List.foldlM_cons, hbit]
    exact ih _

namespace CortexMRegion

/-! ## Decoding what was encoded -/

/-- The hardware reads `r` as the enabled region of `2 ^ k` bytes from `start`
with the subregions of `mask` disabled. -/
structure Decodes (r : CortexMRegion) (start k : ℕ) (mask : BitVec 8) : Prop where
  enabled : r.enabled = true
  base : r.base = start
  sizeBits : r.sizeBits = k
  disabled : r.disabledSubregions = mask

theorem extractLsb_enabledAttributes (sizeValue : ℕ) (permissions : Permissions) :
    (enabledAttributes sizeValue permissions).extractLsb' 0 1 = 1#1 ∧
    (enabledAttributes sizeValue permissions).extractLsb' 1 5 = ofNat 5 sizeValue ∧
    (enabledAttributes sizeValue permissions).extractLsb' 8 8 = 0#8 := by
  simp (disch := omega) only [enabledAttributes, extractLsb'_or,
    extractLsb_place, extractLsb_place_of_apart, or_zero, zero_or, and_self]

theorem access_of_new {profile : Profile} {subregions : Option (ℕ × ℕ)} {permissions : Permissions}
    {logicalStart logicalSize regionStart regionSize regionNum : ℕ} {r : CortexMRegion}
    (h : new profile logicalStart logicalSize regionStart regionSize regionNum subregions
      permissions = .ok r) : r.access = accessFields permissions := by
  obtain ⟨sizeValue, -, h⟩ := of_bind_ok h
  cases subregions with
  | none =>
    cases h
    simp (disch := omega) only [access, enabledAttributes, extractLsb'_or, extractLsb_place,
      extractLsb_place_of_apart, or_zero, zero_or]
  | some bounds =>
    obtain ⟨mask, -, h⟩ := of_bind_ok h
    cases h
    simp (disch := omega) only [access, enabledAttributes, extractLsb'_or, extractLsb_place,
      extractLsb_place_of_apart, or_zero, zero_or]

theorem base_of_aligned {start regionNum : ℕ} (hlt : start < 2 ^ 32) (haligned : 32 ∣ start) :
    ((place 32 5 (ofNat 27 (start >>> 5)) ||| place 32 4 1#1 |||
      place 32 0 (ofNat 4 regionNum) : BitVec 32).extractLsb' 5 27).toNat * 32 = start := by
  simp (disch := omega) only [extractLsb'_or, extractLsb_place,
    extractLsb_place_of_apart, or_zero, toNat_ofNat, Nat.shiftRight_eq_div_pow]
  omega

section New

variable (profile : Profile) (logicalStart logicalSize regionNum : ℕ)
  (permissions : Permissions) {start k : ℕ}

theorem sub_logBaseTwo_one (hk : 1 ≤ k) :
    sub 32 profile (Math.logBaseTwo (2 ^ k)) 1 = .ok (k - 1) := by
  rw [Math.logBaseTwo_two_pow, sub_of_le profile hk]

theorem sizeBits_eq (hk : 1 ≤ k) (hk32 : k ≤ 32) : (ofNat 5 (k - 1)).toNat + 1 = k := by
  rw [toNat_ofNat]
  omega

theorem new_whole (hlt : start < 2 ^ 32) (haligned : 32 ∣ start) (hk : 1 ≤ k) (hk32 : k ≤ 32) :
    ∃ r, new profile logicalStart logicalSize start (2 ^ k) regionNum none permissions = .ok r ∧
      r.location = some (logicalStart, logicalSize) ∧ r.Decodes start k 0#8 := by
  obtain ⟨henabled, hsize, hsrd⟩ :=
    extractLsb_enabledAttributes (k - 1) permissions
  refine ⟨_, by rw [new, sub_logBaseTwo_one profile hk]; rfl, rfl, ?_⟩
  exact {
    enabled := by simp only [CortexMRegion.enabled, henabled]; rfl
    base := base_of_aligned hlt haligned
    sizeBits := by
      rw [CortexMRegion.sizeBits, hsize, sizeBits_eq hk hk32]
    disabled := hsrd }

theorem new_of_mask {minSubregion maxSubregion : ℕ} {mask : BitVec 8}
    (hmask : subregionMask profile minSubregion maxSubregion = .ok mask)
    (hlt : start < 2 ^ 32) (haligned : 32 ∣ start) (hk : 1 ≤ k) (hk32 : k ≤ 32) :
    ∃ r, new profile logicalStart logicalSize start (2 ^ k) regionNum
        (some (minSubregion, maxSubregion)) permissions = .ok r ∧
      r.location = some (logicalStart, logicalSize) ∧ r.Decodes start k mask := by
  obtain ⟨henabled, hsize, hsrd⟩ :=
    extractLsb_enabledAttributes (k - 1) permissions
  refine ⟨_, by
    rw [new, sub_logBaseTwo_one profile hk]
    simp only [hmask]
    rfl, rfl, ?_⟩
  constructor
  · simp (disch := omega) only [CortexMRegion.enabled, extractLsb'_or,
      extractLsb_place_of_apart, henabled, or_zero]
    rfl
  · exact base_of_aligned hlt haligned
  · simp (disch := omega) only [CortexMRegion.sizeBits,
      extractLsb'_or, extractLsb_place_of_apart, hsize, or_zero, sizeBits_eq hk hk32]
  · simp (disch := omega) only [CortexMRegion.disabledSubregions,
      extractLsb'_or, extractLsb_place, hsrd, zero_or]

theorem exists_new_release (regionStart regionSize : ℕ) (subregions : Option (ℕ × ℕ)) :
    ∃ r, new .release logicalStart logicalSize regionStart regionSize
      regionNum subregions permissions = .ok r := by
  unfold new
  obtain ⟨_, hsize⟩ := exists_sub_release
  rw [hsize]
  cases subregions with
  | none => exact ⟨_, rfl⟩
  | some bounds =>
    obtain ⟨_, hmask⟩ := subregionMask_release bounds.1 bounds.2
    simp only [hmask]
    exact ⟨_, rfl⟩

end New

section Accessible

variable {r : CortexMRegion} {start k : ℕ} {mask : BitVec 8}

theorem Decodes.accessible_iff (h : r.Decodes start k mask) (hk : 3 ≤ k)
    (haligned : 2 ^ k ∣ start) (address : ℕ) : r.Accessible address ↔
      start ≤ address ∧ address < start + 2 ^ k ∧
        mask.getLsbD ((address - start) / 2 ^ (k - 3)) = false := by
  obtain ⟨q, rfl⟩ := haligned
  have hpos : 0 < 2 ^ k := Nat.two_pow_pos k
  have heighth : 2 ^ k / 8 = 2 ^ (k - 3) := Nat.pow_div hk Nat.two_pos
  have hhit : address / 2 ^ k = q ↔ 2 ^ k * q ≤ address ∧ address < 2 ^ k * q + 2 ^ k := by
    rw [Nat.div_eq_iff hpos, Nat.mul_comm q]
    omega
  simp only [Accessible, size, h.enabled, h.sizeBits, h.base, h.disabled,
    heighth, Nat.mul_div_cancel_left q hpos, true_and, hhit, and_assoc]
  refine and_congr_right fun hle => and_congr_right fun hlt => ?_
  have hmod : address % 2 ^ k = address - 2 ^ k * q := by
    have hq := hhit.mpr ⟨hle, hlt⟩
    have := Nat.div_add_mod address (2 ^ k)
    rw [hq] at this
    omega
  rw [hmod]

theorem Decodes.accessible_whole (h : r.Decodes start k 0#8) (hk : 3 ≤ k)
    (haligned : 2 ^ k ∣ start) (address : ℕ) :
    r.Accessible address ↔ start ≤ address ∧ address < start + 2 ^ k := by
  rw [h.accessible_iff hk haligned]
  simp

theorem Decodes.accessible_subregions (h : r.Decodes start k mask) (hk : 3 ≤ k)
    (haligned : 2 ^ k ∣ start) {minSubregion maxSubregion : ℕ} (hmax : maxSubregion < 8)
    (hmask : ∀ j < 8, mask.getLsbD j = false ↔ minSubregion ≤ j ∧ j ≤ maxSubregion) (address : ℕ) :
    r.Accessible address ↔ start + minSubregion * 2 ^ (k - 3) ≤ address ∧
        address < start + (maxSubregion + 1) * 2 ^ (k - 3) := by
  rw [h.accessible_iff hk haligned]
  have hpos : 0 < 2 ^ (k - 3) := Nat.two_pow_pos _
  have height : 2 ^ k = 8 * 2 ^ (k - 3) := by
    rw [show (8 : ℕ) = 2 ^ 3 by rfl, ← Nat.pow_add, Nat.add_sub_cancel' hk]
  have hupper : (maxSubregion + 1) * 2 ^ (k - 3) ≤ 8 * 2 ^ (k - 3) := Nat.mul_le_mul_right _ hmax
  have hlow : minSubregion ≤ (address - start) / 2 ^ (k - 3) ↔
      minSubregion * 2 ^ (k - 3) ≤ address - start :=
    Nat.le_div_iff_mul_le hpos
  have hhigh : (address - start) / 2 ^ (k - 3) < maxSubregion + 1 ↔
      address - start < (maxSubregion + 1) * 2 ^ (k - 3) :=
    Nat.div_lt_iff_lt_mul hpos
  have hbit : address - start < 2 ^ k → (address - start) / 2 ^ (k - 3) < 8 := by
    intro hlt
    rw [Nat.div_lt_iff_lt_mul hpos, ← height]
    exact hlt
  constructor
  · rintro ⟨hle, hlt, hclear⟩
    obtain ⟨hmin, hmax⟩ := (hmask _ (hbit (by omega))).mp hclear
    omega
  · rintro ⟨hle, hlt⟩
    have hstart : start ≤ address := by omega
    have hend : address < start + 2 ^ k := by omega
    refine ⟨hstart, hend, (hmask _ (hbit (by omega))).mpr ⟨?_, ?_⟩⟩
    · exact hlow.mpr (by omega)
    · exact Nat.lt_succ_iff.mp (hhigh.mpr (by omega))

end Accessible

end CortexMRegion

end TockKernel.CortexM

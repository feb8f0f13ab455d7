import TockKernel.CortexMAppUpdate

/-!
# Regions on request on the Cortex-M MPU

`allocate_region` covers a stretch of memory directly if its size is a power of
two that divides its start, by some of the eighths of a larger region if they
happen to fit, and otherwise by moving it up in memory. In all three cases the
hardware gives access to exactly what is handed out, provided that no sum or
product leaves 32 bits.
-/

namespace TockKernel.CortexM

open Arithmetic CortexMRegion Function Math

variable {g : Geometry}

/-! ## Requests -/

structure RegionRequest where
  unallocatedMemoryStart : ℕ
  unallocatedMemorySize : ℕ
  minRegionSize : ℕ
deriving DecidableEq, Repr

namespace RegionRequest

variable (g) (request : RegionRequest)

def start : ℕ := alignUp request.unallocatedMemoryStart g.minRegionSize

def size : ℕ := max request.minRegionSize g.minRegionSize

def Unaligned : Prop :=
  1 < Math.countOnes (request.size g) ∨ request.start g % request.size g ≠ 0

def subregionSize : ℕ :=
  if Math.trailingZeros (request.start g) < 32 then
    2 ^ Math.trailingZeros (request.start g)
  else max 256 (2 ^ Nat.clog 2 (request.size g)) / 8

def roundedSize : ℕ :=
  alignUp (request.size g) (request.subregionSize g)

def underlyingStart : ℕ :=
  request.start g - request.start g % (request.subregionSize g * 8)

def CoveredBySubregions : Prop :=
  32 ≤ request.subregionSize g ∧ request.start g + request.roundedSize g ≤
      request.underlyingStart g + request.subregionSize g * 8

def shiftedSize : ℕ := 2 ^ Nat.clog 2 (request.roundedSize g)

def shiftedStart : ℕ :=
  request.start g + (request.shiftedSize g - request.start g % request.shiftedSize g)

/-- No sum or product that the allocation computes leaves 32 bits. -/
structure InRange : Prop where
  unallocatedEnd_lt : request.unallocatedMemoryStart + request.unallocatedMemorySize < 2 ^ 32
  stop_lt : request.start g + request.size g < 2 ^ 32
  subregions_lt : request.Unaligned g → request.subregionSize g * 8 < 2 ^ 32 ∧
    request.start g + request.roundedSize g < 2 ^ 32 ∧
    request.underlyingStart g + request.subregionSize g * 8 < 2 ^ 32
  shifted_lt : request.Unaligned g → ¬ request.CoveredBySubregions g →
    request.shiftedSize g < 2 ^ 32 ∧ request.shiftedStart g + request.shiftedSize g < 2 ^ 32

end RegionRequest

/-! ## The three plans -/

/-- The hardware region of a plan gives access to exactly the memory of the
plan. -/
structure RegionPlan.Exact (plan : RegionPlan) : Prop where
  stop_lt : plan.start + plan.size < 2 ^ 32
  exists_exponent : ∃ k, 5 ≤ k ∧ k ≤ 31 ∧ plan.regionSize = 2 ^ k ∧
    2 ^ k ∣ plan.regionStart ∧ plan.regionStart < 2 ^ 32 ∧
    match plan.subregions with
    | none => plan.start = plan.regionStart ∧ plan.size = 2 ^ k
    | some (lowest, highest) =>
      8 ≤ k ∧ highest < 8 ∧
      plan.start = plan.regionStart + lowest * 2 ^ (k - 3) ∧
      plan.start + plan.size = plan.regionStart + (highest + 1) * 2 ^ (k - 3)

variable {k : ℕ} {r : CortexMRegion} {config : CortexMConfig g}

theorem exponent_bounds (hle : 32 ≤ 2 ^ k) (hlt : 2 ^ k < 2 ^ 32) : 5 ≤ k ∧ k ≤ 31 := by
  have hlow : 5 ≤ k := by
    rw [← Nat.pow_le_pow_iff_right Nat.one_lt_two]
    exact hle
  have hhigh : k < 32 := by
    rwa [← Nat.pow_lt_pow_iff_right Nat.one_lt_two]
  exact ⟨hlow, by omega⟩

theorem RegionPlan.exact_whole {start : ℕ} (hsize : 32 ≤ 2 ^ k)
    (haligned : 2 ^ k ∣ start) (hstop : start + 2 ^ k < 2 ^ 32) :
    (RegionPlan.mk start (2 ^ k) start (2 ^ k) none).Exact := by
  obtain ⟨hlow, hhigh⟩ := exponent_bounds hsize (by omega)
  exact ⟨hstop, k, hlow, hhigh, rfl, haligned, show start < 2 ^ 32 by omega, rfl, rfl⟩

theorem dvd_add_sub_mod (start : ℕ) {size : ℕ} (hsize : 0 < size) :
    size ∣ start + (size - start % size) := by
  have hlt := Nat.mod_lt start hsize
  have hdecomp := Nat.div_add_mod start size
  refine ⟨start / size + 1, ?_⟩
  rw [Nat.mul_add]
  omega

variable {start size : ℕ}

theorem shiftUp_exact (profile : Profile) (hpos : 32 ≤ size) (hsize : 2 ^ Nat.clog 2 size < 2 ^ 32)
    (hstop : start + (2 ^ Nat.clog 2 size - start % 2 ^ Nat.clog 2 size) +
      2 ^ Nat.clog 2 size < 2 ^ 32) : ∃ plan, shiftUp profile start size = .ok plan ∧ plan.Exact ∧
      start ≤ plan.start ∧ size ≤ plan.size := by
  have hclog : Nat.clog 2 size < 32 := (Nat.pow_lt_pow_iff_right Nat.one_lt_two).mp hsize
  have hle : size ≤ 2 ^ Nat.clog 2 size := Nat.le_pow_clog Nat.one_lt_two size
  have h31 : size ≤ 2 ^ 31 := hle.trans (Nat.pow_le_pow_right Nat.two_pos (by omega))
  have htwo : 0 < 2 ^ Nat.clog 2 size := Nat.two_pow_pos _
  have hmod := Nat.mod_lt start htwo
  refine ⟨_, ?_, RegionPlan.exact_whole (by omega)
    (dvd_add_sub_mod start htwo) hstop, Nat.le_add_right _ _, hle⟩
  simp only [shiftUp]
  rw [closestPowerOfTwo_of_le profile (by omega) h31, ok_bind, rem_of_pos htwo, ok_bind,
    sub_of_le profile hmod.le, ok_bind, add_of_lt profile (by omega)]
  rfl

namespace RegionRequest

variable {request : RegionRequest}

theorem minRegionSize_ge (g : Geometry) : 32 ≤ g.minRegionSize := by
  rcases g.minRegionSize_eq with h | h <;> omega

theorem size_ge (g : Geometry) (request : RegionRequest) : 32 ≤ request.size g :=
  (minRegionSize_ge g).trans (le_max_right _ _)

theorem exists_subregionSize_eq (hstart : request.start g < 2 ^ 32) :
    ∃ j, request.subregionSize g = 2 ^ j ∧ 2 ^ j ∣ request.start g := by
  unfold subregionSize
  by_cases htz : trailingZeros (request.start g) < 32
  · rw [if_pos htz]
    exact ⟨_, rfl, two_pow_trailingZeros_dvd htz⟩
  rw [eq_zero_of_trailingZeros hstart htz]
  refine ⟨max 8 (Nat.clog 2 (request.size g)) - 3, ?_, Nat.dvd_zero _⟩
  have hmax : max 256 (2 ^ Nat.clog 2 (request.size g)) =
      2 ^ max 8 (Nat.clog 2 (request.size g)) := by
    rcases le_total 8 (Nat.clog 2 (request.size g)) with h | h
    · rw [max_eq_right h, max_eq_right]
      exact Nat.pow_le_pow_right Nat.two_pos h
    rw [max_eq_left h, max_eq_left]
    · rfl
    · exact Nat.pow_le_pow_right Nat.two_pos h
  rw [hmax]
  exact Nat.pow_div (le_max_of_le_left (by decide) : 3 ≤ _) Nat.two_pos

theorem subregionSizeFor_eq (profile : Profile) (hlt : request.subregionSize g * 8 < 2 ^ 32) :
    subregionSizeFor profile (request.start g) (request.size g) =
      .ok (request.subregionSize g) := by
  unfold subregionSizeFor
  by_cases htz : trailingZeros (request.start g) < 32
  · simp only [if_pos htz, subregionSize]
    rfl
  have hsize := request.size_ge g
  simp only [subregionSize, if_neg htz] at hlt ⊢
  have hclog : Nat.clog 2 (request.size g) < 32 := by
    by_contra hge
    have : 2 ^ 32 ≤ 2 ^ Nat.clog 2 (request.size g) := Nat.pow_le_pow_right Nat.two_pos (by omega)
    omega
  rw [closestPowerOfTwo_of_le profile (by omega)
    ((Nat.clog_le_iff_le_pow Nat.one_lt_two).mp (by omega)), ok_bind]
  have hceil : ∀ ceil : ℕ, (if ceil < 256 then 256 else ceil) = max 256 ceil := by
    intro ceil
    split <;> omega
  rw [hceil]
  rfl

theorem subregions_exact {start size j : ℕ} (hj : 5 ≤ j) (hword : 2 ^ j * 8 < 2 ^ 32)
    (hstart : 2 ^ j ∣ start) (hsize : 2 ^ j ∣ size) (hpos : 0 < size)
    (hstop : start + size < 2 ^ 32)
    (hcovered : start + size ≤ start - start % (2 ^ j * 8) + 2 ^ j * 8) :
    (RegionPlan.mk start size (start - start % (2 ^ j * 8)) (2 ^ j * 8)
      (some (start % (2 ^ j * 8) / 2 ^ j,
        start % (2 ^ j * 8) / 2 ^ j + size / 2 ^ j - 1))).Exact := by
  have hunit : 0 < 2 ^ j := Nat.two_pow_pos j
  have height : 2 ^ j * 8 = 2 ^ (j + 3) := by rw [Nat.pow_add]
  obtain ⟨hlow, hhigh⟩ := exponent_bounds (by
    rw [← height]
    exact (Nat.pow_le_pow_right Nat.two_pos hj : 2 ^ 5 ≤ 2 ^ j).trans
      (Nat.le_mul_of_pos_right _ (by decide))) (by rwa [← height])
  have hoffset : 2 ^ j ∣ start % (2 ^ j * 8) := (Nat.dvd_mod_iff ⟨8, rfl⟩).mpr hstart
  have hmin : start % (2 ^ j * 8) / 2 ^ j * 2 ^ j = start % (2 ^ j * 8) :=
    Nat.div_mul_cancel hoffset
  have hcount : size / 2 ^ j * 2 ^ j = size := Nat.div_mul_cancel hsize
  have hone : 1 ≤ size / 2 ^ j := (Nat.one_le_div_iff hunit).mpr (Nat.le_of_dvd hpos hsize)
  have hle : start % (2 ^ j * 8) ≤ start := Nat.mod_le _ _
  -- the enabled eighths end at or before the end of the region
  have heighths : (start % (2 ^ j * 8) / 2 ^ j + size / 2 ^ j) * 2 ^ j ≤ 8 * 2 ^ j := by
    rw [Nat.add_mul]
    omega
  have hmax := Nat.le_of_mul_le_mul_right heighths hunit
  refine ⟨hstop, j + 3, hlow, hhigh, height, ?_, ?_, by omega, by omega, ?_, ?_⟩
  · rw [← height]
    exact Nat.dvd_sub_mod start
  · exact (Nat.sub_le _ _).trans_lt (by omega)
  · simp only [Nat.add_sub_cancel]
    omega
  · simp only [Nat.add_sub_cancel]
    rw [Nat.sub_add_cancel (hone.trans (Nat.le_add_left _ _)), Nat.add_mul]
    omega

theorem coverUnaligned_exact (profile : Profile) (hrange : request.InRange g)
    (hunaligned : request.Unaligned g) :
    ∃ plan, coverUnaligned profile (request.start g) (request.size g) = .ok plan ∧
      plan.Exact ∧ request.start g ≤ plan.start ∧ request.size g ≤ plan.size := by
  obtain ⟨hword, hstop, hunder⟩ := hrange.subregions_lt hunaligned
  have hshift := hrange.shifted_lt hunaligned
  have hsizege := request.size_ge g
  obtain ⟨j, hj, hdvd⟩ := exists_subregionSize_eq (show request.start g < 2 ^ 32 by omega)
  have hunit : 0 < 2 ^ j := Nat.two_pow_pos j
  have hsizele : request.size g ≤ request.roundedSize g := le_alignUp _ _
  have hmod : request.start g % (request.subregionSize g * 8) ≤ request.start g := Nat.mod_le _ _
  unfold coverUnaligned
  rw [subregionSizeFor_eq profile hword, ok_bind, mul_of_lt profile hword, ok_bind, rem_of_pos
    (by omega), ok_bind, sub_of_le profile hmod, ok_bind, roundUp_of_lt profile (by omega)
    (show request.roundedSize g < _ by omega), ok_bind, ← roundedSize, ← underlyingStart, add_of_lt
    profile hstop, ok_bind, add_of_lt profile hunder, ok_bind]
  by_cases hcovered : request.CoveredBySubregions g
  · have hoffset : request.start g - request.underlyingStart g = request.start g % (2 ^ j * 8) := by
      rw [underlyingStart, Nat.sub_sub_self hmod, hj]
    have hrounded : 2 ^ j ∣ request.roundedSize g := by
      rw [roundedSize, hj]
      exact dvd_alignUp hunit
    have hcount : 1 ≤ request.roundedSize g / 2 ^ j :=
      (Nat.one_le_div_iff hunit).mpr (Nat.le_of_dvd (by omega) hrounded)
    have hnext : request.start g % (2 ^ j * 8) / 2 ^ j +
        request.roundedSize g / 2 ^ j < 2 ^ 32 := by
      have h1 := Nat.div_le_self (request.start g % (2 ^ j * 8)) (2 ^ j)
      have h2 := Nat.div_le_self (request.roundedSize g) (2 ^ j)
      rw [hj] at hmod
      omega
    have hj5 : 5 ≤ j := by
      rw [← Nat.pow_le_pow_iff_right Nat.one_lt_two, ← hj]
      exact hcovered.1
    rw [if_pos (show _ ∧ _ from hcovered),
      sub_of_le profile (show request.underlyingStart g ≤ _ from
        Nat.sub_le _ _), ok_bind, hoffset, hj, div_of_pos hunit, ok_bind,
      div_of_pos hunit, ok_bind, add_of_lt profile hnext, ok_bind,
      sub_of_le profile (hcount.trans (Nat.le_add_left _ _)), ok_bind]
    refine ⟨_, rfl, ?_, le_rfl, hsizele⟩
    have hstart := hcovered.2
    rw [underlyingStart, hj] at hstart ⊢
    rw [hj] at hword
    exact subregions_exact hj5 hword hdvd hrounded (by omega) hstop hstart
  · obtain ⟨hsize, hend⟩ := hshift hcovered
    obtain ⟨plan, hplan, hexact, hstart, hsize⟩ := shiftUp_exact profile
      (hsizege.trans hsizele) hsize hend
    exact ⟨plan, (if_neg hcovered).trans hplan, hexact, hstart, hsizele.trans hsize⟩

theorem planRegion_exact (profile : Profile) (hrange : request.InRange g) :
    ∃ plan, planRegion g profile request.unallocatedMemoryStart request.minRegionSize = .ok plan ∧
      plan.Exact ∧ request.unallocatedMemoryStart ≤ plan.start ∧
      request.minRegionSize ≤ plan.size := by
  have hmin := minRegionSize_ge g
  have hsize := request.size_ge g
  have hstop := hrange.stop_lt
  have hstart : request.unallocatedMemoryStart ≤ request.start g := le_alignUp _ _
  have hrequested : request.minRegionSize ≤ request.size g := le_max_left _ _
  have hcode : (if request.minRegionSize < g.minRegionSize then
      g.minRegionSize else request.minRegionSize) = request.size g := by
    unfold size
    split <;> omega
  simp only [planRegion, hcode]
  rw [roundUp_of_lt profile (by omega) (show request.start g < 2 ^ 32 by omega), ok_bind,
    rem_of_pos (by omega)]
  by_cases hunaligned : request.Unaligned g
  · obtain ⟨plan, hplan, hexact, hle, hge⟩ := coverUnaligned_exact profile hrange hunaligned
    exact ⟨plan, (if_pos hunaligned).trans hplan, hexact, hstart.trans hle, hrequested.trans hge⟩
  have haligned := not_or.mp hunaligned
  have hpow := eq_two_pow_of_countOnes_le (show 0 < request.size g by omega) (by omega) haligned.1
  refine ⟨_, if_neg hunaligned, ?_, hstart, hrequested⟩
  rw [hpow] at hsize hstop ⊢
  refine RegionPlan.exact_whole hsize ?_ hstop
  rw [← hpow]
  exact Nat.dvd_of_mod_eq_zero (not_not.mp haligned.2)

end RegionRequest

/-- The hardware region for the memory from `start` to `start + size`. -/
structure CortexMRegion.Covers (r : CortexMRegion) (start size : ℕ) : Prop where
  location : r.location = some (start, size)
  size_ge : 32 ≤ r.size
  size_ge_of_disabled : r.disabledSubregions ≠ 0 → 256 ≤ r.size
  base_aligned : r.size ∣ r.base
  accessible_iff : ∀ address, r.Accessible address ↔ start ≤ address ∧ address < start + size

theorem RegionPlan.Exact.new_covers {plan : RegionPlan} (h : plan.Exact)
    (profile : Profile) (regionNum : ℕ) (permissions : Permissions) :
    ∃ r, CortexMRegion.new profile plan.start plan.size plan.regionStart
        plan.regionSize regionNum plan.subregions permissions = .ok r ∧
      r.Covers plan.start plan.size := by
  obtain ⟨-, k, hk, hk31, hregion, haligned, hlt, hcases⟩ := h
  have h32 : 32 ∣ plan.regionStart := (Nat.pow_dvd_pow 2 hk : 2 ^ 5 ∣ 2 ^ k).trans haligned
  have hge : 2 ^ 5 ≤ 2 ^ k := Nat.pow_le_pow_right Nat.two_pos hk
  rw [hregion]
  cases hsub : plan.subregions with
  | none =>
    rw [hsub] at hcases
    obtain ⟨hstart, hsize⟩ := hcases
    obtain ⟨r, hr, hloc, hdec⟩ := CortexMRegion.new_whole profile
      plan.start plan.size regionNum permissions (k := k) hlt h32 (by omega) (by omega)
    have hrsize : r.size = 2 ^ k := by rw [CortexMRegion.size, hdec.sizeBits]
    refine ⟨r, hr, hloc, by rwa [hrsize], ?_, ?_, ?_⟩
    · intro hdisabled
      exact absurd hdec.disabled hdisabled
    · rwa [hrsize, hdec.base]
    · intro address
      rw [hdec.accessible_whole (by omega) haligned, hstart, hsize]
  | some bounds =>
    obtain ⟨lowest, highest⟩ := bounds
    rw [hsub] at hcases
    obtain ⟨hk8, hhighest, hstart, hstop⟩ := hcases
    obtain ⟨_, hmask, hbits⟩ := subregionMask_ok profile lowest hhighest
    obtain ⟨r, hr, hloc, hdec⟩ := CortexMRegion.new_of_mask profile
      plan.start plan.size regionNum permissions (k := k) hmask hlt h32 (by omega) (by omega)
    have hrsize : r.size = 2 ^ k := by rw [CortexMRegion.size, hdec.sizeBits]
    refine ⟨r, hr, hloc, by rwa [hrsize], ?_, ?_, ?_⟩
    · intro _
      rw [hrsize]
      exact (Nat.pow_le_pow_right Nat.two_pos hk8 : 2 ^ 8 ≤ 2 ^ k)
    · rwa [hrsize, hdec.base]
    · intro address
      rw [hdec.accessible_subregions (by omega) haligned hhighest hbits, hstop, hstart]

/-! ## Configurations in use -/

structure CortexMRegion.WellFormed (r : CortexMRegion) : Prop where
  stop_lt : ∀ start size, r.location = some (start, size) → start + size < 2 ^ 32
  contained : ∀ address, r.Accessible address → ∃ start size, r.location = some (start, size) ∧
      start ≤ address ∧ address < start + size

theorem CortexMRegion.wellFormed_empty (regionNum : ℕ) : (empty regionNum).WellFormed where
  stop_lt := by
    intro start size h
    cases h
  contained := by
    intro address h
    exact absurd h (not_accessible_empty regionNum address)

theorem CortexMRegion.Covers.wellFormed
    (h : r.Covers start size) (hstop : start + size < 2 ^ 32) : r.WellFormed where
  stop_lt := by
    intro start' size' hloc
    rw [h.location] at hloc
    cases hloc
    exact hstop
  contained := by
    intro address haddr
    exact ⟨start, size, h.location, (h.accessible_iff address).mp haddr⟩

theorem CortexMRegion.Decodes.wellFormed {start : ℕ} {mask : BitVec 8}
    (h : r.Decodes start k mask) (hk : 3 ≤ k) (haligned : 2 ^ k ∣ start)
    (hloc : r.location = some (start, 2 ^ k)) (hstop : start + 2 ^ k < 2 ^ 32) : r.WellFormed where
  stop_lt := by
    intro start' size' hlocation'
    rw [hloc] at hlocation'
    cases hlocation'
    exact hstop
  contained := by
    intro address haddr
    obtain ⟨hle, hlt, -⟩ := (h.accessible_iff hk haligned address).mp haddr
    exact ⟨start, 2 ^ k, hloc, hle, hlt⟩

theorem exists_decodes_of_new {profile : Profile} {logicalStart logicalSize start regionNum : ℕ}
    {subregions : Option (ℕ × ℕ)} {permissions : Permissions} (hlt : start < 2 ^ 32)
    (haligned : 32 ∣ start) (hk : 1 ≤ k) (hk32 : k ≤ 32)
    (h : new profile logicalStart logicalSize start (2 ^ k) regionNum subregions permissions =
      .ok r) : ∃ mask, r.Decodes start k mask := by
  cases subregions with
  | none =>
    obtain ⟨r', hr', -, hdec⟩ := new_whole profile
      logicalStart logicalSize regionNum permissions hlt haligned hk hk32
    rw [hr'] at h
    cases h
    exact ⟨_, hdec⟩
  | some bounds =>
    obtain ⟨_, -, hmask⟩ := of_bind_ok h
    obtain ⟨mask, hmask, -⟩ := of_bind_ok hmask
    obtain ⟨r', hr', -, hdec⟩ := new_of_mask profile
      logicalStart logicalSize regionNum permissions hmask hlt haligned hk hk32
    rw [hr'] at h
    cases h
    exact ⟨_, hdec⟩

theorem appRegions_wellFormed {profile : Profile} {start num : ℕ}
    {permissions : Permissions} {regions : CortexMRegion × CortexMRegion}
    (hk : 5 ≤ k) (hk31 : k ≤ 31) (haligned : 2 ^ k ∣ start) (hstop : start + 2 * 2 ^ k < 2 ^ 32)
    (h : appRegions profile start (2 ^ k) num permissions = .ok regions) :
    regions.1.WellFormed ∧ regions.2.WellFormed := by
  have h32 : 32 ∣ 2 ^ k := Nat.pow_dvd_pow 2 hk
  obtain ⟨_, -, h⟩ := of_bind_ok h
  obtain ⟨r0, hr0, h⟩ := of_bind_ok h
  obtain ⟨_, hdec0⟩ := exists_decodes_of_new (by omega)
    (h32.trans haligned) (by omega) (by omega) hr0
  have hwf0 : r0.WellFormed := hdec0.wellFormed (by omega) haligned (location_of_new hr0) (by omega)
  split at h
  · cases h
    exact ⟨hwf0, wellFormed_empty 1⟩
  rw [add_of_lt _ (by omega), ok_bind] at h
  obtain ⟨_, hr1, h⟩ := of_bind_ok h
  cases h
  have haligned1 : 2 ^ k ∣ start + 2 ^ k := haligned.add dvd_rfl
  obtain ⟨_, hdec1⟩ := exists_decodes_of_new (by omega)
    (h32.trans haligned1) (by omega) (by omega) hr1
  exact ⟨hwf0, hdec1.wellFormed (by omega) haligned1 (location_of_new hr1) (by omega)⟩

/-- Every region gives access only to the memory it stands for, and region 0 is
the first of two aligned regions inside the address space. -/
structure CortexMConfig.Sound (config : CortexMConfig g) : Prop where
  wellFormed : ∀ i, (config.regions i).WellFormed
  app : ∀ start size, (config.regions g.region0).location = some (start, size) →
      ∃ k, 8 ≤ k ∧ k ≤ 31 ∧ size = 2 ^ k ∧ 2 ^ k ∣ start ∧ start + 2 * 2 ^ k < 2 ^ 32

namespace CortexMConfig

theorem sound_freshConfig (g : Geometry) (id : ℕ) : (freshConfig g id).Sound where
  wellFormed := fun i => wellFormed_empty i
  app := by
    intro start size h
    cases h

variable {config : CortexMConfig g}

theorem Sound.setRegion (h : config.Sound) {i : Fin g.numRegions} {r : CortexMRegion}
    (hi : appMemoryRegionMaxNum < i.val) (hr : r.WellFormed) : (config.setRegion i r).Sound where
  wellFormed := by
    intro j
    by_cases hj : j = i
    · subst hj
      simpa [CortexMConfig.setRegion] using hr
    · simpa [CortexMConfig.setRegion, update_of_ne hj] using h.wellFormed j
  app := by
    have hne : g.region0 ≠ i := by
      rintro rfl
      simp [Geometry.region0] at hi
    simpa [CortexMConfig.setRegion, update_of_ne hne] using h.app

theorem Sound.setAppRegions (h : config.Sound) {profile : Profile} {start k num : ℕ}
    {permissions : Permissions} {regions : CortexMRegion × CortexMRegion} (hk : 8 ≤ k)
    (hk31 : k ≤ 31) (haligned : 2 ^ k ∣ start) (hstop : start + 2 * 2 ^ k < 2 ^ 32)
    (hregions : appRegions profile start (2 ^ k) num permissions = .ok regions) :
    (config.setAppRegions regions.1 regions.2).Sound where
  wellFormed := by
    obtain ⟨hwf0, hwf1⟩ := appRegions_wellFormed (by omega) hk31 haligned hstop hregions
    intro j
    simp only [CortexMConfig.setAppRegions, CortexMConfig.setRegion]
    by_cases hj1 : j = g.region1
    · subst hj1
      rwa [update_self]
    rw [update_of_ne hj1]
    by_cases hj0 : j = g.region0
    · subst hj0
      rwa [update_self]
    · rw [update_of_ne hj0]
      exact h.wellFormed j
  app := by
    intro start' size' hloc
    rw [region0_setAppRegions, location_of_appRegions hregions] at hloc
    cases hloc
    exact ⟨k, hk, hk31, rfl, haligned, hstop⟩

end CortexMConfig

/-! ## One allocation -/

theorem overlaps_of_wellFormed (h : r.WellFormed) (profile : Profile)
    (hstop : start + size < 2 ^ 32) : ∃ found, r.overlaps profile start size = .ok found ∧
      (found = false → ∀ start' size', r.location = some (start', size') →
        start' + size' ≤ start ∨ start + size ≤ start') := by
  unfold overlaps
  rw [add_of_lt profile hstop]
  cases hloc : r.location with
  | none => exact ⟨false, rfl, by simp⟩
  | some location =>
    obtain ⟨start', size'⟩ := location
    simp only [add_of_lt profile (h.stop_lt start' size' hloc)]
    refine ⟨_, rfl, ?_⟩
    intro hfree start'' size'' heq
    cases heq
    rw [decide_eq_false_iff_not] at hfree
    omega

theorem overlapsAny_of_sound (h : config.Sound) (profile : Profile)
    (hstop : start + size < 2 ^ 32) :
    ∃ found, config.overlapsAny profile start size = .ok found ∧ (found = false → ∀ i start' size',
        (config.regions i).location = some (start', size') →
          start' + size' ≤ start ∨ start + size ≤ start') := by
  have hlist : ∀ numbers : List (Fin g.numRegions), ∃ found,
      (numbers.map config.regions).anyM (fun region =>
        region.overlaps profile start size) = .ok found ∧
      (found = false → ∀ i ∈ numbers, ∀ start' size',
        (config.regions i).location = some (start', size') →
          start' + size' ≤ start ∨ start + size ≤ start') := by
    intro numbers
    induction numbers with
    | nil => exact ⟨false, rfl, by simp⟩
    | cons i rest ih =>
      obtain ⟨found, hfound, hfree⟩ := overlaps_of_wellFormed (h.wellFormed i) profile hstop
      rw [List.map_cons, List.anyM_cons, hfound]
      cases found with
      | true => exact ⟨true, rfl, by simp⟩
      | false =>
        obtain ⟨found', hfound', hfree'⟩ := ih
        refine ⟨found', hfound', ?_⟩
        intro hnone
        rw [List.forall_mem_cons]
        exact ⟨hfree rfl, hfree' hnone⟩
  obtain ⟨found, hfound, hfree⟩ := hlist (List.finRange g.numRegions)
  exact ⟨found, hfound, fun hnone i => hfree hnone i (List.mem_finRange i)⟩

theorem unusedRegionNumber_some {i : Fin g.numRegions} (h : config.unusedRegionNumber = some i) :
    appMemoryRegionMaxNum < i.val ∧ (config.regions i).location = none := by
  have hfound := List.find?_some h
  simpa using hfound

/-- The region that was handed out, and what became of the configuration. -/
structure RegionRequest.Served (request : RegionRequest) (permissions : Permissions)
    (config config' : CortexMConfig g) (i : Fin g.numRegions) (start size : ℕ) : Prop where
  minRegionSize_le : request.minRegionSize ≤ size
  start_le : request.unallocatedMemoryStart ≤ start
  stop_le : start + size ≤ request.unallocatedMemoryStart + request.unallocatedMemorySize
  covers : (config'.regions i).Covers start size
  access : (config'.regions i).access = accessFields permissions
  apart : ∀ j ≠ i, ∀ start' size', (config.regions j).location = some (start', size') →
      start' + size' ≤ start ∨ start + size ≤ start'
  inaccessible : ∀ j ≠ i, ∀ address, (config'.regions i).Accessible address →
      ¬ (config.regions j).Accessible address
  above_app : appMemoryRegionMaxNum < i.val
  unused : (config.regions i).location = none
  unchanged : ∀ j ≠ i, config'.regions j = config.regions j

/-- The outcome of `allocate_region`: a region exactly as requested, or
nothing changed. -/
def RegionRequest.Exact (request : RegionRequest) (permissions : Permissions)
    (config : CortexMConfig g) (outcome : Option (ℕ × ℕ) × CortexMConfig g) : Prop :=
  match outcome with
  | (none, config') => config' = config
  | (some (start, size), config') =>
    ∃ i, request.Served permissions config config' i start size

theorem allocateRegion_exact (h : config.Sound) (profile : Profile)
    {request : RegionRequest} (hrange : request.InRange g) (permissions : Permissions) :
    ∃ outcome, allocateRegion profile request.unallocatedMemoryStart
        request.unallocatedMemorySize request.minRegionSize permissions config = .ok outcome ∧
      request.Exact permissions config outcome ∧ outcome.2.Sound := by
  obtain ⟨found, hfound, hfree⟩ := overlapsAny_of_sound h profile hrange.unallocatedEnd_lt
  simp only [allocateRegion, hfound]
  cases found with
  | true => exact ⟨(none, config), rfl, rfl, h⟩
  | false =>
    cases hunused : config.unusedRegionNumber with
    | none => exact ⟨(none, config), rfl, rfl, h⟩
    | some i =>
      obtain ⟨habove, hnone⟩ := unusedRegionNumber_some hunused
      obtain ⟨plan, hplan, hexact, hstart, hsize⟩ := RegionRequest.planRegion_exact profile hrange
      simp only [hplan, ok_bind, add_of_lt profile hexact.stop_lt,
        add_of_lt profile hrange.unallocatedEnd_lt]
      by_cases hover : request.unallocatedMemoryStart +
          request.unallocatedMemorySize < plan.start + plan.size
      · exact ⟨(none, config), if_pos hover, rfl, h⟩
      obtain ⟨r, hr, hcovers⟩ := hexact.new_covers profile i permissions
      simp only [if_neg hover, hr]
      refine ⟨_, rfl, ⟨i, ?_⟩, h.setRegion habove (hcovers.wellFormed hexact.stop_lt)⟩
      have hself : (config.setRegion i r).regions i = r := by
        simp [CortexMConfig.setRegion]
      have hapart : ∀ j start' size', (config.regions j).location = some (start', size') →
            start' + size' ≤ plan.start ∨ plan.start + plan.size ≤ start' := by
        intro j start' size' hloc
        have := hfree rfl j start' size' hloc
        omega
      exact {
        minRegionSize_le := hsize
        start_le := hstart
        stop_le := by omega
        covers := by rwa [hself]
        access := by rw [hself, CortexMRegion.access_of_new hr]
        apart := fun j _ => hapart j
        inaccessible := by
          intro j _ address haddr hother
          rw [hself, hcovers.accessible_iff] at haddr
          obtain ⟨start', size', hloc, hle, hlt⟩ :=
            (h.wellFormed j).contained address hother
          have := hapart j start' size' hloc
          omega
        above_app := habove
        unused := hnone
        unchanged := fun j hj => update_of_ne hj _ _ }

/-! ## Runs -/

inductive MpuCall where
  | allocateRegion (request : RegionRequest) (permissions : Permissions)
  | removeMemoryRegion (region : ℕ × ℕ)
  | allocateAppMemoryRegion (request : AppMemoryRequest) (permissions : Permissions)
  | updateAppMemoryRegion (update : UpdateCall)

namespace MpuCall

def run (profile : Profile) (config : CortexMConfig g) : MpuCall → Except Trap (CortexMConfig g)
  | .allocateRegion request permissions => do
      let outcome ← CortexM.allocateRegion profile
        request.unallocatedMemoryStart request.unallocatedMemorySize
        request.minRegionSize permissions config
      return outcome.2
  | .removeMemoryRegion region =>
    return (CortexM.removeMemoryRegion region config).2
  | .allocateAppMemoryRegion request permissions => do
      let outcome ← request.allocate profile permissions config
      return outcome.2
  | .updateAppMemoryRegion update => do
      let outcome ← CortexM.updateAppMemoryRegion profile
        update.appMemoryBreak update.kernelMemoryBreak update.permissions
        config
      return outcome.2

/-- The arithmetic of the call stays within 32 bits, and so do the two regions
of a process. -/
def InRange (g : Geometry) : MpuCall → Prop
  | .allocateRegion request _ => request.InRange g
  | .allocateAppMemoryRegion request _ =>
    request.blockStart + 2 * 2 ^ request.regionExponent < 2 ^ 32
  | .removeMemoryRegion _ => True
  | .updateAppMemoryRegion _ => True

end MpuCall

def runCalls (profile : Profile) (calls : List MpuCall)
    (config : CortexMConfig g) : Except Trap (CortexMConfig g) :=
  calls.foldlM (fun config call => call.run profile config) config

namespace CortexMConfig.Sound

variable {config config' : CortexMConfig g} {profile : Profile}

theorem removeMemoryRegion (h : config.Sound) (region : ℕ × ℕ) :
    (removeMemoryRegion region config).2.Sound := by
  unfold CortexM.removeMemoryRegion
  split
  · exact h
  split
  · exact h
  · rename_i hidx
    exact h.setRegion (not_le.mp hidx) (wellFormed_empty _)

theorem allocateApp (h : config.Sound) {request : AppMemoryRequest} {permissions : Permissions}
    {outcome : Option (ℕ × ℕ) × CortexMConfig g}
    (hrange : request.blockStart + 2 * 2 ^ request.regionExponent < 2 ^ 32)
    (halloc : request.allocate profile permissions config = .ok outcome) : outcome.2.Sound := by
  have hrelease : request.allocate .release permissions config = .ok outcome := by
    cases profile with
    | dev => exact allocateAppMemoryRegion_refines _ halloc
    | release => exact halloc
  obtain ⟨found, hfound⟩ := exists_overlapsAny_release config
    request.unallocatedMemoryStart request.unallocatedMemorySize
  cases found with
  | true =>
    rw [request.allocate_release_overlapping permissions hfound] at hrelease
    cases hrelease
    exact h
  | false =>
    obtain ⟨_, hregions⟩ := exists_appRegions_release
      (request.blockStart % 2 ^ 32) (2 ^ request.regionExponent)
      (request.initialAppMemorySize * 8 % 2 ^ 32 / 2 ^ request.regionExponent + 1) permissions
    rw [request.allocate_release permissions hfound hregions] at hrelease
    split at hrelease
    · cases hrelease
      exact h
    cases hrelease
    rw [Nat.mod_eq_of_lt (by omega)] at hregions
    exact h.setAppRegions request.eight_le_regionExponent
      (request.regionExponent_le.trans request.blockExponent_le)
      (dvd_alignUp (Nat.two_pow_pos _)) hrange hregions

theorem update (h : config.Sound) {appMemoryBreak kernelMemoryBreak : ℕ}
    {permissions : Permissions} {outcome : Except Unit Unit × CortexMConfig g}
    (hupdate : updateAppMemoryRegion profile appMemoryBreak
      kernelMemoryBreak permissions config = .ok outcome) :
    outcome.2.Sound := by
  obtain hsame | ⟨start, size, _, _, hloc, hregions, hset⟩ := updateAppMemoryRegion_cases hupdate
  · rwa [hsame]
  obtain ⟨k, hk, hk31, rfl, haligned, hstop⟩ := h.app start size hloc
  rw [hset]
  exact h.setAppRegions hk hk31 haligned hstop hregions

theorem step (h : config.Sound) {call : MpuCall} (hrange : call.InRange g)
    (hcall : call.run profile config = .ok config') : config'.Sound := by
  cases call with
  | allocateRegion request permissions =>
    obtain ⟨outcome, halloc, -, hsound⟩ := allocateRegion_exact h profile hrange permissions
    simp only [MpuCall.run, halloc] at hcall
    cases hcall
    exact hsound
  | removeMemoryRegion region =>
    cases hcall
    exact h.removeMemoryRegion region
  | allocateAppMemoryRegion request permissions =>
    obtain ⟨outcome, halloc, hreturn⟩ := of_bind_ok hcall
    cases hreturn
    exact h.allocateApp hrange halloc
  | updateAppMemoryRegion update =>
    obtain ⟨outcome, hupdate, hreturn⟩ := of_bind_ok hcall
    cases hreturn
    exact h.update hupdate

theorem run (calls : List MpuCall) (h : config.Sound) (hrange : ∀ call ∈ calls, call.InRange g)
    (hcalls : runCalls profile calls config = .ok config') : config'.Sound := by
  induction calls generalizing config with
  | nil =>
    cases hcalls
    exact h
  | cons call rest ih =>
    obtain ⟨hcall, hrest⟩ := List.forall_mem_cons.mp hrange
    obtain ⟨_, hnext, hcalls⟩ := of_bind_ok hcalls
    exact ih (h.step hcall hnext) hrest hcalls

end CortexMConfig.Sound

/-- After any calls whose arithmetic stays within 32 bits, a further such
allocation does not stop and hands out exactly what it makes accessible. -/
theorem allocate_region_exact (g : Geometry) (profile : Profile) (id : ℕ)
    (calls : List MpuCall) (hcalls : ∀ call ∈ calls, call.InRange g) {config : CortexMConfig g}
    (hrun : runCalls profile calls (freshConfig g id) = .ok config)
    (request : RegionRequest) (hrequest : request.InRange g) (permissions : Permissions) :
    ∃ outcome, allocateRegion profile request.unallocatedMemoryStart
        request.unallocatedMemorySize request.minRegionSize permissions config = .ok outcome ∧
      request.Exact permissions config outcome := by
  have hsound := (CortexMConfig.sound_freshConfig g id).run calls hcalls hrun
  obtain ⟨outcome, halloc, hexact, -⟩ := allocateRegion_exact hsound profile hrequest permissions
  exact ⟨outcome, halloc, hexact⟩

theorem allocate_region_exact_small : ∃ config : CortexMConfig cortexM4,
      runCalls .dev [.allocateRegion ⟨0x10000, 0x2000, 0x1000⟩ .readOnly,
        .removeMemoryRegion (0x10000, 0x1000)] (freshConfig cortexM4 1) = .ok config ∧
      ∃ outcome, allocateRegion .dev 0x1000 0x8000 3000 .readWriteOnly config = .ok outcome ∧
        RegionRequest.Exact ⟨0x1000, 0x8000, 3000⟩ .readWriteOnly config outcome := by
  refine ⟨_, rfl, allocate_region_exact cortexM4 .dev 1
    [.allocateRegion ⟨0x10000, 0x2000, 0x1000⟩ .readOnly,
      .removeMemoryRegion (0x10000, 0x1000)] ?_ rfl ⟨0x1000, 0x8000, 3000⟩ ?_ .readWriteOnly⟩
  · have haligned : ¬ RegionRequest.Unaligned cortexM4 ⟨0x10000, 0x2000, 0x1000⟩ := by
      simp only [RegionRequest.Unaligned]
      decide
    simp only [List.forall_mem_cons]
    exact ⟨⟨by decide, by decide, fun h => absurd h haligned,
      fun h => absurd h haligned⟩, trivial, by simp⟩
  · refine ⟨by decide, by decide, fun _ => by decide, fun _ h => absurd ?_ h⟩
    simp only [RegionRequest.CoveredBySubregions]
    decide

/-- Without overflow checks, aligning the start of a stretch at the end of the
address space wraps around, and the region handed out is at address zero. -/
theorem allocate_region_wraps : ∃ outcome, allocateRegion .release 0xFFFFFFF1 14 1 .readWriteOnly
        (freshConfig cortexM4 1) = .ok outcome ∧
      ¬ RegionRequest.Exact ⟨0xFFFFFFF1, 14, 1⟩ .readWriteOnly (freshConfig cortexM4 1)
        outcome := by
  refine ⟨_, rfl, ?_⟩
  rintro ⟨i, hserved⟩
  exact absurd hserved.start_le (by decide)

end TockKernel.CortexM

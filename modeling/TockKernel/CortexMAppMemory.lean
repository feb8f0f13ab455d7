import TockKernel.CortexMMpu

/-!
# Process memory on the Cortex-M MPU

What `allocate_app_memory_region` and `update_app_memory_region` give a process
access to. A block of `16 * u` bytes is covered by two regions of eight
subregions of `u` bytes each. When the last of them reaches into the memory of
the kernel, the regions are made twice as large, but the block stays as it is.
-/

namespace TockKernel.CortexM

open Arithmetic CortexMRegion CortexMConfig

variable {g : Geometry}

theorem appRegions_spec (profile : Profile) (permissions : Permissions) (start k num : ℕ)
    (hlt : start < 2 ^ 32) (hk : 5 ≤ k) (hk32 : k ≤ 32) (haligned : 2 ^ k ∣ start) (hnum : 1 ≤ num)
    (hnum16 : num ≤ 16) (hfit : 8 < num → start + 2 ^ k < 2 ^ 32) :
    ∃ r0 r1, appRegions profile start (2 ^ k) num permissions = .ok (r0, r1) ∧
      r0.location = some (start, 2 ^ k) ∧ ∀ address, r0.Accessible address ∨ r1.Accessible address ↔
        start ≤ address ∧ address < start + num * 2 ^ (k - 3) := by
  have h32 : 32 ∣ start := (Nat.pow_dvd_pow 2 hk : 2 ^ 5 ∣ 2 ^ k).trans haligned
  have height : 2 ^ k = 8 * 2 ^ (k - 3) := by
    rw [show (8 : ℕ) = 2 ^ 3 by rfl, ← Nat.pow_add, Nat.add_sub_cancel' (by omega)]
  obtain ⟨_, hmask0, hbits0⟩ := subregionMask_ok profile 0 (show min num 8 - 1 < 8 by omega)
  obtain ⟨r0, hr0, hloc0, hdec0⟩ := new_of_mask profile start
    (2 ^ k) 0 permissions hmask0 hlt h32 (by omega) hk32
  have hacc0 := hdec0.accessible_subregions (by omega) haligned (by omega) hbits0
  have hsub : sub 32 profile (min num 8) 1 = .ok (min num 8 - 1) := sub_of_le profile (by omega)
  by_cases hone : num ≤ 8
  · refine ⟨r0, .empty 1, ?_, hloc0, ?_⟩
    · simp only [appRegions, hsub, ok_bind, hr0, if_pos (show num - 8 = 0 by omega)]
      rfl
    · intro address
      rw [hacc0, or_iff_left (not_accessible_empty 1 address),
        show min num 8 - 1 + 1 = num by omega, Nat.zero_mul, Nat.add_zero]
  have hfit' := hfit (by omega)
  obtain ⟨_, hmask1, hbits1⟩ := subregionMask_ok profile 0 (show num - 8 - 1 < 8 by omega)
  obtain ⟨r1, hr1, -, hdec1⟩ := new_of_mask profile
    (start + 2 ^ k) (2 ^ k) 1 permissions hmask1 hfit'
    (h32.add ((Nat.pow_dvd_pow 2 hk : 2 ^ 5 ∣ 2 ^ k))) (by omega) hk32
  have hacc1 := hdec1.accessible_subregions (by omega) (haligned.add dvd_rfl) (by omega) hbits1
  refine ⟨r0, r1, ?_, hloc0, ?_⟩
  · simp only [appRegions, hsub, ok_bind, hr0,
      if_neg (show num - 8 ≠ 0 by omega), add_of_lt profile hfit', hr1]
    rfl
  · intro address
    -- the first region is full and the second starts where it ends
    rw [hacc0, hacc1, show min num 8 - 1 + 1 = 8 by omega, show num - 8 - 1 + 1 = num - 8 by
      omega, Nat.sub_mul]
    have : 8 * 2 ^ (k - 3) ≤ num * 2 ^ (k - 3) := Nat.mul_le_mul_right _ (by omega)
    omega

/-! ## Requests for process memory -/

/-- The exponent of the size of a block. Above half the address space the power
of two wraps around and the minimum is taken. -/
def blockExponentFor (memorySize : ℕ) : ℕ :=
  if 256 < memorySize ∧ memorySize ≤ 2 ^ 31 then Nat.clog 2 memorySize else 9

theorem nine_le_blockExponentFor (memorySize : ℕ) : 9 ≤ blockExponentFor memorySize := by
  unfold blockExponentFor
  split
  · rename_i h
    by_contra hlt
    have := (Nat.clog_le_iff_le_pow Nat.one_lt_two).mp (show Nat.clog 2 memorySize ≤ 8 by omega)
    omega
  · exact le_rfl

theorem blockExponentFor_le (memorySize : ℕ) : blockExponentFor memorySize ≤ 31 := by
  unfold blockExponentFor
  split
  · rename_i h
    exact Nat.clog_le_of_le_pow h.2
  · decide

variable {minSize regionSize start : ℕ} {permissions : Permissions}
  {app kernel : ℕ}

theorem memorySizePo2_release (app kernel : ℕ) (hmin : minSize < 2 ^ 32) :
    memorySizePo2 .release minSize app kernel = .ok (some
        (2 ^ blockExponentFor (max minSize ((app + kernel) % 2 ^ 32)))) := by
  unfold memorySizePo2
  rw [add_release, ok_bind]
  have hlt : max minSize ((app + kernel) % 2 ^ 32) < 2 ^ 32 :=
    max_lt hmin (Nat.mod_lt _ (Nat.two_pow_pos 32))
  generalize max minSize ((app + kernel) % 2 ^ 32) = memorySize at hlt ⊢
  unfold blockExponentFor
  by_cases hwrap : memorySize = 0 ∨ 2 ^ 31 < memorySize
  · have hwrap' : ¬ (256 < memorySize ∧ memorySize ≤ 2 ^ 31) := by omega
    rw [Math.closestPowerOfTwo_release_zero hlt hwrap]
    simp only [if_neg hwrap']
    rfl
  rw [Math.closestPowerOfTwo_of_le .release (by omega) (by omega), ok_bind]
  have hclog : Nat.clog 2 memorySize ≤ 31 := Nat.clog_le_of_le_pow (by omega)
  have hnine : Nat.clog 2 memorySize < 9 ↔ memorySize ≤ 256 := by
    rw [Nat.lt_succ_iff, Nat.clog_le_iff_le_pow Nat.one_lt_two]
  simp only [Math.logBaseTwo_two_pow, hnine]
  by_cases hsmall : memorySize ≤ 256
  · rw [if_pos hsmall, if_neg (by omega)]
    rfl
  · rw [if_neg hsmall, if_neg (by omega), if_pos (by omega)]
    rfl

structure AppMemoryRequest where
  unallocatedMemoryStart : ℕ
  unallocatedMemorySize : ℕ
  minMemorySize : ℕ
  initialAppMemorySize : ℕ
  initialKernelMemorySize : ℕ
  unallocatedMemoryEnd_lt : unallocatedMemoryStart + unallocatedMemorySize < 2 ^ 32
  minMemorySize_lt : minMemorySize < 2 ^ 32
  initialMemorySize_lt : initialAppMemorySize + initialKernelMemorySize < 2 ^ 32

namespace AppMemoryRequest

variable (request : AppMemoryRequest)

def allocate (profile : Profile) (permissions : Permissions) (config : CortexMConfig g) :
    Except Trap (Option (ℕ × ℕ) × CortexMConfig g) :=
  allocateAppMemoryRegion profile request.unallocatedMemoryStart
    request.unallocatedMemorySize request.minMemorySize
    request.initialAppMemorySize request.initialKernelMemorySize permissions config

def memorySize : ℕ :=
  max request.minMemorySize (request.initialAppMemorySize + request.initialKernelMemorySize)

def blockExponent : ℕ := blockExponentFor request.memorySize

def blockSize : ℕ := 2 ^ request.blockExponent

/-- The last subregion the process needs reaches into the memory of the
kernel, as the code computes it in 32 bits. -/
def NeedsFallback : Prop :=
  let regionSize := request.blockSize / 2
  let regionStart := alignUp request.unallocatedMemoryStart regionSize % 2 ^ 32
  let num := request.initialAppMemorySize * 8 % 2 ^ 32 / regionSize + 1
  ((regionStart + request.blockSize) % 2 ^ 32 + 2 ^ 32 - request.initialKernelMemorySize) % 2 ^ 32 <
    (regionStart + num * (regionSize / 8)) % 2 ^ 32

instance : Decidable request.NeedsFallback :=
  inferInstanceAs (Decidable (_ < _))

def regionExponent : ℕ :=
  if request.NeedsFallback then request.blockExponent
  else request.blockExponent - 1

def blockStart : ℕ :=
  alignUp request.unallocatedMemoryStart (2 ^ request.regionExponent)

theorem nine_le_blockExponent : 9 ≤ request.blockExponent := nine_le_blockExponentFor _

theorem blockExponent_le : request.blockExponent ≤ 31 := blockExponentFor_le _

theorem blockSize_half : request.blockSize / 2 = 2 ^ (request.blockExponent - 1) := by
  have hnine := request.nine_le_blockExponent
  have hpow := Nat.pow_div (show 1 ≤ request.blockExponent by omega) Nat.two_pos
  rwa [Nat.pow_one] at hpow

theorem unallocatedMemoryStart_lt : request.unallocatedMemoryStart < 2 ^ 32 :=
  (Nat.le_add_right _ _).trans_lt request.unallocatedMemoryEnd_lt

theorem memorySize_le_blockSize_iff :
    request.memorySize ≤ request.blockSize ↔ request.memorySize ≤ 2 ^ 31 := by
  unfold blockSize blockExponent blockExponentFor
  split
  · rename_i h
    exact ⟨fun _ => h.2, fun _ => Nat.le_pow_clog Nat.one_lt_two _⟩
  · omega

end AppMemoryRequest

theorem initialSubregions_release (app : ℕ) (hsize : 2 ≤ regionSize) :
    initialSubregions .release app regionSize = .ok (app * 8 % 2 ^ 32 / regionSize + 1) := by
  have hlt : app * 8 % 2 ^ 32 / regionSize ≤ app * 8 % 2 ^ 32 / 2 :=
    Nat.div_le_div_left hsize Nat.two_pos
  rw [initialSubregions, mul_release, ok_bind, div_of_pos (by omega), ok_bind,
    add_of_lt _ (by omega)]

theorem alignUp_le_word (hx : x < 2 ^ 32) {k : ℕ} (hk : k ≤ 32) : alignUp x (2 ^ k) ≤ 2 ^ 32 :=
  alignUp_le_of_dvd (Nat.two_pow_pos k) hx.le (Nat.pow_dvd_pow 2 hk)

theorem alignUp_alignUp_mod (hx : x < 2 ^ 32) (hjk : j ≤ k) (hk : k ≤ 32) :
    alignUp (alignUp x (2 ^ j) % 2 ^ 32) (2 ^ k) % 2 ^ 32 = alignUp x (2 ^ k) % 2 ^ 32 := by
  have htwice := alignUp_alignUp (x := x) (Nat.two_pow_pos k) (Nat.pow_dvd_pow 2 hjk)
  rcases (alignUp_le_word hx (hjk.trans hk)).lt_or_eq with hlt | hwrap
  · rw [Nat.mod_eq_of_lt hlt, htwice]
  · rw [← htwice, hwrap, Nat.mod_self, alignUp_eq_self (Nat.dvd_zero _),
      alignUp_eq_self (Nat.pow_dvd_pow 2 hk), Nat.mod_self, Nat.zero_mod]

theorem enabledBytes_lt (eightfold : ℕ) (hle : regionSize ≤ 2 ^ 31) :
    (eightfold % 2 ^ 32 / regionSize + 1) * (regionSize / 8) < 2 ^ 32 := by
  have hmul : eightfold % 2 ^ 32 / regionSize * (regionSize / 8) * 8 ≤ eightfold % 2 ^ 32 := by
    refine le_trans ?_ (Nat.div_mul_le_self _ regionSize)
    rw [Nat.mul_assoc]
    exact Nat.mul_le_mul_left _ (Nat.div_mul_le_self _ 8)
  rw [Nat.add_mul]
  omega

theorem planAppMemory_release (request : AppMemoryRequest) :
    planAppMemory .release request.unallocatedMemoryStart
      request.initialAppMemorySize request.initialKernelMemorySize request.blockSize =
      .ok ⟨request.blockStart % 2 ^ 32, 2 ^ request.regionExponent,
        request.initialAppMemorySize * 8 % 2 ^ 32 / 2 ^ request.regionExponent + 1⟩ := by
  have hnine := request.nine_le_blockExponent
  have hle := request.blockExponent_le
  have hstart := request.unallocatedMemoryStart_lt
  have hhalf := request.blockSize_half
  have hpos : ∀ k, 0 < 2 ^ k := Nat.two_pow_pos
  have htwo : ∀ k, 1 ≤ k → 2 ≤ 2 ^ k := fun k hk =>
    Nat.le_self_pow (by omega) 2
  have hsmall : 2 ^ (request.blockExponent - 1) ≤ 2 ^ 31 :=
    Nat.pow_le_pow_right Nat.two_pos (by omega)
  have hdouble : 2 ^ (request.blockExponent - 1) * 2 = 2 ^ request.blockExponent := by
    rw [← Nat.pow_succ, Nat.succ_eq_add_one, Nat.sub_add_cancel (by omega)]
  have hblock : 2 ^ request.blockExponent < 2 ^ 32 := Nat.pow_lt_pow_right Nat.one_lt_two (by omega)
  simp only [planAppMemory, hhalf]
  rw [roundUp_release (hpos _) hstart, ok_bind, initialSubregions_release _ (htwo _ (by omega)),
    ok_bind, mul_of_lt _ (enabledBytes_lt _ hsmall), ok_bind, add_release, ok_bind, add_release,
    ok_bind, sub_release (Nat.mod_lt _ (hpos 32)), ok_bind]
  by_cases hfallback : request.NeedsFallback
  · have hcode := hfallback
    simp only [AppMemoryRequest.NeedsFallback, hhalf] at hcode
    rw [if_pos hcode, mul_of_lt _ (by omega), ok_bind, hdouble, roundUp_release (hpos _)
      (Nat.mod_lt _ (hpos 32)), alignUp_alignUp_mod hstart (by omega) (by omega),
      initialSubregions_release _ (htwo _ (by omega))]
    simp only [AppMemoryRequest.blockStart, AppMemoryRequest.regionExponent, if_pos hfallback]
    rfl
  have hcode := hfallback
  simp only [AppMemoryRequest.NeedsFallback, hhalf] at hcode
  rw [if_neg hcode]
  simp only [AppMemoryRequest.blockStart, AppMemoryRequest.regionExponent, if_neg hfallback]
  rfl

theorem exists_overlapsAny_release (config : CortexMConfig g) (start size : ℕ) :
    ∃ found, config.overlapsAny .release start size = .ok found := by
  unfold overlapsAny
  induction (List.finRange g.numRegions).map config.regions with
  | nil => exact ⟨false, rfl⟩
  | cons region rest ih =>
    have hone : ∃ found, region.overlaps .release start size = .ok found := by
      unfold overlaps
      rw [add_release]
      cases region.location with
      | none => exact ⟨_, rfl⟩
      | some location =>
        simp only [add_release]
        exact ⟨_, rfl⟩
    obtain ⟨found, hfound⟩ := hone
    rw [List.anyM_cons, hfound]
    cases found with
    | true => exact ⟨true, rfl⟩
    | false => exact ih

theorem exists_appRegions_release (start size num : ℕ) (permissions : Permissions) :
    ∃ regions, appRegions .release start size num permissions = .ok regions := by
  obtain ⟨last, hlast⟩ := exists_sub_release (w := 32) (x := min num 8) (y := 1)
  obtain ⟨r0, hr0⟩ := exists_new_release start size 0 permissions start size (some (0, last))
  obtain ⟨_, hr1⟩ := exists_new_release
    ((start + size) % 2 ^ 32) size 1 permissions ((start + size) % 2 ^ 32) size
    (some (0, num - 8 - 1))
  simp only [appRegions, hlast, ok_bind, hr0, add_release, hr1]
  split <;> exact ⟨_, rfl⟩

theorem appAccessible_setAppRegions (config : CortexMConfig g)
    (r0 r1 : CortexMRegion) (address : ℕ) : (config.setAppRegions r0 r1).AppAccessible address ↔
      r0.Accessible address ∨ r1.Accessible address := by
  have hne : g.region0 ≠ g.region1 := by simp [Geometry.region0, Geometry.region1]
  simp [AppAccessible, setAppRegions, setRegion, Function.update_of_ne hne]

namespace AppMemoryRequest

variable (request : AppMemoryRequest)

def Fits : Prop :=
  request.blockStart + request.blockSize ≤
    request.unallocatedMemoryStart + request.unallocatedMemorySize

theorem regionExponent_le : request.regionExponent ≤ request.blockExponent := by
  unfold regionExponent
  split <;> omega

theorem eight_le_regionExponent : 8 ≤ request.regionExponent := by
  have hnine := request.nine_le_blockExponent
  unfold regionExponent
  split <;> omega

theorem blockSize_le : request.blockSize ≤ 2 ^ 31 :=
  Nat.pow_le_pow_right Nat.two_pos request.blockExponent_le

theorem blockStart_lt : request.blockStart < request.unallocatedMemoryStart + request.blockSize :=
  (alignUp_lt (Nat.two_pow_pos _)).trans_le (Nat.add_le_add_left
      (Nat.pow_le_pow_right Nat.two_pos request.regionExponent_le) _)

/-- The check, made in 32 bits, fails only for a block that ends in the address
space. -/
theorem blockEnd_check : request.unallocatedMemoryStart + request.unallocatedMemorySize <
        (request.blockStart % 2 ^ 32 + request.blockSize) % 2 ^ 32 ↔
      request.unallocatedMemoryStart + request.unallocatedMemorySize <
          request.blockStart + request.blockSize ∧
        request.blockStart + request.blockSize < 2 ^ 32 := by
  have hstart := request.blockStart_lt
  have hsize := request.blockSize_le
  omega

theorem memorySizePo2_eq : memorySizePo2 .release request.minMemorySize request.initialAppMemorySize
      request.initialKernelMemorySize = .ok (some request.blockSize) := by
  rw [memorySizePo2_release _ _ request.minMemorySize_lt,
    Nat.mod_eq_of_lt request.initialMemorySize_lt]
  rfl

variable {config : CortexMConfig g}

theorem allocate_release_overlapping (permissions : Permissions)
    (hoverlap : config.overlapsAny .release request.unallocatedMemoryStart
      request.unallocatedMemorySize = .ok true) :
    request.allocate .release permissions config = .ok (none, config) := by
  simp only [allocate, allocateAppMemoryRegion, hoverlap]
  rfl

theorem allocate_release (permissions : Permissions) {r0 r1 : CortexMRegion}
    (hoverlap : config.overlapsAny .release request.unallocatedMemoryStart
      request.unallocatedMemorySize = .ok false)
    (hregions : appRegions .release (request.blockStart % 2 ^ 32) (2 ^ request.regionExponent)
      (request.initialAppMemorySize * 8 % 2 ^ 32 / 2 ^ request.regionExponent + 1) permissions =
      .ok (r0, r1)) :
    request.allocate .release permissions config =
      .ok (if request.unallocatedMemoryStart + request.unallocatedMemorySize <
            request.blockStart + request.blockSize ∧
          request.blockStart + request.blockSize < 2 ^ 32 then
        (none, config)
      else (some (request.blockStart % 2 ^ 32, request.blockSize),
        config.setAppRegions r0 r1)) := by
  simp only [allocate, allocateAppMemoryRegion, hoverlap, ok_bind, memorySizePo2_eq,
    planAppMemory_release, add_release, Nat.mod_eq_of_lt request.unallocatedMemoryEnd_lt, hregions,
    request.blockEnd_check, Bool.false_eq_true, if_false]
  split <;> rfl

def unit : ℕ := 2 ^ (request.blockExponent - 4)

def numSubregions : ℕ :=
  request.initialAppMemorySize * 8 % 2 ^ 32 / 2 ^ request.regionExponent + 1

theorem unit_pos : 0 < request.unit := Nat.two_pow_pos _

theorem two_pow_eq_mul_unit (hk : request.blockExponent - 4 ≤ k) :
    2 ^ k = 2 ^ (k - (request.blockExponent - 4)) * request.unit := by
  rw [unit, ← Nat.pow_add, Nat.sub_add_cancel hk]

theorem blockSize_eq : request.blockSize = 16 * request.unit := by
  have hnine := request.nine_le_blockExponent
  rw [blockSize, request.two_pow_eq_mul_unit (by omega),
    show request.blockExponent - (request.blockExponent - 4) = 4 by omega]
  rfl

theorem regionSize_of_fallback (h : request.NeedsFallback) :
    2 ^ request.regionExponent = 16 * request.unit ∧
      2 ^ (request.regionExponent - 3) = 2 * request.unit := by
  have hnine := request.nine_le_blockExponent
  have hexp : request.regionExponent = request.blockExponent := if_pos h
  rw [hexp, request.two_pow_eq_mul_unit (by omega),
    show request.blockExponent - (request.blockExponent - 4) = 4 by omega,
    request.two_pow_eq_mul_unit (show _ ≤ request.blockExponent - 3 by omega),
    show request.blockExponent - 3 - (request.blockExponent - 4) = 1 by omega]
  exact ⟨rfl, rfl⟩

theorem regionSize_of_direct (h : ¬ request.NeedsFallback) :
    2 ^ request.regionExponent = 8 * request.unit ∧
      2 ^ (request.regionExponent - 3) = request.unit := by
  have hnine := request.nine_le_blockExponent
  have hexp : request.regionExponent = request.blockExponent - 1 := if_neg h
  rw [hexp, request.two_pow_eq_mul_unit (by omega),
    show request.blockExponent - 1 - (request.blockExponent - 4) = 3 by omega]
  exact ⟨rfl, rfl⟩

theorem firstStart_le_blockStart : alignUp request.unallocatedMemoryStart (8 * request.unit) ≤
      request.blockStart := by
  have hpos := request.unit_pos
  unfold blockStart
  by_cases h : request.NeedsFallback
  · rw [(request.regionSize_of_fallback h).1]
    exact alignUp_le_of_dvd (by omega) (le_alignUp _ _)
      (dvd_trans ⟨2, by omega⟩ (dvd_alignUp (by omega)))
  · rw [(request.regionSize_of_direct h).1]

theorem needsFallback_iff (hfits : request.Fits) (hsize : request.memorySize ≤ 2 ^ 31)
    (happ : request.initialAppMemorySize < 2 ^ 29) : request.NeedsFallback ↔
      16 * request.unit - request.initialKernelMemorySize <
        (request.initialAppMemorySize / request.unit + 1) * request.unit := by
  have hpos := request.unit_pos
  have hend := request.unallocatedMemoryEnd_lt
  have hfirst := request.firstStart_le_blockStart
  have hneeded := request.memorySize_le_blockSize_iff.mpr hsize
  have hblock := request.blockSize_eq
  have hhalf : request.blockSize / 2 = 8 * request.unit := by omega
  have hword : 8 * request.unit ∣ 2 ^ 32 := by
    have hle := request.blockExponent_le
    rw [show 8 * request.unit = request.blockSize / 2 from hhalf.symm, request.blockSize_half]
    exact Nat.pow_dvd_pow 2 (by omega)
  simp only [Fits, memorySize] at hfits hneeded
  simp only [NeedsFallback, hhalf]
  set first := alignUp request.unallocatedMemoryStart (8 * request.unit)
  -- both ends are multiples of half the block, so half a block lies between
  have hgap : first + 16 * request.unit + 8 * request.unit ≤ 2 ^ 32 := by
    refine Nat.le_of_lt_add_of_dvd (by omega) ?_ hword
    exact ((dvd_alignUp (by omega)).add ⟨2, by omega⟩).add dvd_rfl
  have hnum : request.initialAppMemorySize * 8 % 2 ^ 32 / (8 * request.unit) =
      request.initialAppMemorySize / request.unit := by
    rw [Nat.mod_eq_of_lt (by omega), Nat.mul_comm 8, Nat.mul_div_mul_right _ _ (by decide)]
  have henabled : (request.initialAppMemorySize / request.unit + 1) *
      request.unit ≤ request.initialAppMemorySize + request.unit := by
    rw [Nat.add_mul, Nat.one_mul]
    exact Nat.add_le_add_right (Nat.div_mul_le_self _ _) _
  rw [hnum, show 8 * request.unit / 8 = request.unit by omega]
  omega

theorem allocate_release_of_fits (permissions : Permissions)
    (hoverlap : config.overlapsAny .release request.unallocatedMemoryStart
      request.unallocatedMemorySize = .ok false)
    (hfits : request.Fits) (hnum : request.numSubregions ≤ 16) :
    ∃ config', request.allocate .release permissions config =
        .ok (some (request.blockStart, request.blockSize), config') ∧
      ∀ address, config'.AppAccessible address ↔
        request.blockStart ≤ address ∧ address < request.blockStart +
          request.numSubregions * 2 ^ (request.regionExponent - 3) := by
  have hblock := request.blockExponent_le
  have hend := request.unallocatedMemoryEnd_lt
  have hregion : 2 ^ request.regionExponent ≤ request.blockSize :=
    Nat.pow_le_pow_right Nat.two_pos request.regionExponent_le
  have height := request.eight_le_regionExponent
  have hle := request.regionExponent_le
  unfold Fits at hfits
  obtain ⟨r0, r1, hregions, -, haccessible⟩ := appRegions_spec .release
    permissions request.blockStart request.regionExponent
    request.numSubregions (by omega) (by omega) (by omega)
    (dvd_alignUp (Nat.two_pow_pos _)) (Nat.le_add_left 1 _) hnum (fun _ => by omega)
  have hmod : request.blockStart % 2 ^ 32 = request.blockStart := Nat.mod_eq_of_lt (by omega)
  rw [← hmod] at hregions
  refine ⟨config.setAppRegions r0 r1, ?_, ?_⟩
  · rw [request.allocate_release permissions hoverlap hregions, if_neg (by omega), hmod]
  · intro address
    rw [appAccessible_setAppRegions, haccessible]

/-! ## When the allocation isolates the memory of the kernel -/

/-- What a caller of `allocate_app_memory_region` relies on. -/
structure Isolated (config : CortexMConfig g) (start size : ℕ) : Prop where
  start_le : request.unallocatedMemoryStart ≤ start
  stop_le : start + size ≤ request.unallocatedMemoryStart + request.unallocatedMemorySize
  memorySize_le : request.memorySize ≤ size
  covers : ∀ address, start ≤ address → address < start + request.initialAppMemorySize →
      config.AppAccessible address
  disjoint : ∀ address, start + size - request.initialKernelMemorySize ≤ address →
      address < start + size → ¬ config.AppAccessible address

def Isolates (profile : Profile) (permissions : Permissions) (config : CortexMConfig g) : Prop :=
  ∀ result config', request.allocate profile permissions config = .ok (result, config') →
      match result with
      | none => config' = config
      | some (start, size) => request.Isolated config' start size

/-- The requests that are served as they should be: those turned down, and those
within the bounds of the arithmetic that do not need the fallback, unless the
kernel asks for nothing. -/
def ServedSafely (config : CortexMConfig g) : Prop :=
  config.overlapsAny .release request.unallocatedMemoryStart
      request.unallocatedMemorySize = .ok true ∨
    (request.unallocatedMemoryStart + request.unallocatedMemorySize <
        request.blockStart + request.blockSize ∧ request.blockStart + request.blockSize < 2 ^ 32) ∨
    (request.memorySize ≤ 2 ^ 31 ∧ request.initialAppMemorySize < 2 ^ 29 ∧ request.Fits ∧
      (request.NeedsFallback → request.initialKernelMemorySize = 0))

section Fitting

variable {request}

theorem numSubregions_of_direct (happ : request.initialAppMemorySize < 2 ^ 29)
    (hdirect : ¬ request.NeedsFallback) : request.numSubregions =
      request.initialAppMemorySize / request.unit + 1 := by
  rw [numSubregions, (request.regionSize_of_direct hdirect).1,
    Nat.mod_eq_of_lt (by omega), Nat.mul_comm 8, Nat.mul_div_mul_right _ _ (by decide)]

theorem numSubregions_of_fallback (happ : request.initialAppMemorySize < 2 ^ 29)
    (hfallback : request.NeedsFallback) : request.numSubregions =
      request.initialAppMemorySize / request.unit / 2 + 1 := by
  rw [numSubregions, (request.regionSize_of_fallback hfallback).1,
    Nat.mod_eq_of_lt (by omega), Nat.div_div_eq_div_mul,
    show 16 * request.unit = request.unit * 2 * 8 by omega, Nat.mul_div_mul_right _ _ (by decide)]

section

variable (hfits : request.Fits) (hsize : request.memorySize ≤ 2 ^ 31)
  (happ : request.initialAppMemorySize < 2 ^ 29)
include hfits hsize happ

theorem numSubregions_mul_unit_le (hdirect : ¬ request.NeedsFallback) :
    request.numSubregions * request.unit ≤ 16 * request.unit - request.initialKernelMemorySize := by
  rw [numSubregions_of_direct happ hdirect]
  rw [request.needsFallback_iff hfits hsize happ] at hdirect
  omega

theorem isolated_of_direct {config : CortexMConfig g} (hdirect : ¬ request.NeedsFallback)
    (haccessible : ∀ address, config.AppAccessible address ↔ request.blockStart ≤ address ∧
      address < request.blockStart + request.numSubregions * 2 ^ (request.regionExponent - 3)) :
    request.Isolated config request.blockStart request.blockSize := by
  have hblock := request.blockSize_eq
  have hbound := numSubregions_mul_unit_le hfits hsize happ hdirect
  have hcover := Nat.lt_mul_div_succ request.initialAppMemorySize request.unit_pos
  rw [Nat.mul_comm, ← numSubregions_of_direct happ hdirect] at hcover
  rw [(request.regionSize_of_direct hdirect).2] at haccessible
  refine ⟨le_alignUp _ _, hfits, request.memorySize_le_blockSize_iff.mpr hsize, ?_, ?_⟩
  · intro address hle hlt
    exact (haccessible address).mpr ⟨hle, by omega⟩
  · intro address hle hlt hacc
    have := ((haccessible address).mp hacc).2
    omega

theorem initialAppMemorySize_of_fallback (hfallback : request.NeedsFallback)
    (hkernel : request.initialKernelMemorySize = 0) :
    request.initialAppMemorySize = 16 * request.unit := by
  have hneeded := request.memorySize_le_blockSize_iff.mpr hsize
  rw [request.needsFallback_iff hfits hsize happ, hkernel] at hfallback
  have hquotient : 16 ≤ request.initialAppMemorySize / request.unit :=
    Nat.lt_succ_iff.mp (Nat.lt_of_mul_lt_mul_right hfallback)
  have hlower := (Nat.le_div_iff_mul_le request.unit_pos).mp hquotient
  have hblock := request.blockSize_eq
  simp only [memorySize] at hneeded
  omega

end

theorem isolated_of_no_kernel_memory {config : CortexMConfig g} (hfits : request.Fits)
    (hsize : request.memorySize ≤ 2 ^ 31)
    (hwhole : request.initialAppMemorySize = 16 * request.unit)
    (hkernel : request.initialKernelMemorySize = 0)
    (hbytes : 16 * request.unit ≤ request.numSubregions * 2 ^ (request.regionExponent - 3))
    (haccessible : ∀ address, config.AppAccessible address ↔ request.blockStart ≤ address ∧
      address < request.blockStart + request.numSubregions * 2 ^ (request.regionExponent - 3)) :
    request.Isolated config request.blockStart request.blockSize := by
  refine ⟨le_alignUp _ _, hfits, request.memorySize_le_blockSize_iff.mpr hsize, ?_, ?_⟩
  · intro address hle hlt
    exact (haccessible address).mpr ⟨hle, by omega⟩
  · intro address hle hlt
    omega

/-- The number of subregions is computed from what is left of the eightfold size
in 32 bits. -/
theorem uncovered_of_large_app (hsize : request.memorySize ≤ 2 ^ 31)
    (happ : 2 ^ 29 ≤ request.initialAppMemorySize) : request.numSubregions ≤ 16 ∧
      request.numSubregions * 2 ^ (request.regionExponent - 3) < request.initialAppMemorySize := by
  have hneeded := request.memorySize_le_blockSize_iff.mpr hsize
  have hblock := request.blockSize_eq
  have hle := request.blockSize_le
  simp only [memorySize] at hneeded
  -- the size of a region and of its subregions, whichever way it was chosen
  have hregion : ∃ v, 2 ^ request.regionExponent = 8 * v ∧
      2 ^ (request.regionExponent - 3) = v ∧ request.unit ≤ v ∧ v ≤ 2 * request.unit := by
    by_cases h : request.NeedsFallback
    · obtain ⟨h1, h2⟩ := request.regionSize_of_fallback h
      exact ⟨2 * request.unit, by omega, h2, by omega, le_rfl⟩
    · obtain ⟨h1, h2⟩ := request.regionSize_of_direct h
      exact ⟨request.unit, h1, h2, le_rfl, by omega⟩
  obtain ⟨v, hv, hv', hlower, hupper⟩ := hregion
  have hquotient := Nat.div_mul_le_self (request.initialAppMemorySize * 8 % 2 ^ 32) (8 * v)
  unfold numSubregions
  rw [hv, hv']
  constructor
  · have : request.initialAppMemorySize * 8 % 2 ^ 32 / (8 * v) < 16 := by
      rw [Nat.div_lt_iff_lt_mul (by omega)]
      omega
    omega
  · rw [Nat.add_mul, Nat.one_mul]
    have : request.initialAppMemorySize * 8 % 2 ^ 32 / (8 * v) * v * 8 ≤
        request.initialAppMemorySize * 8 % 2 ^ 32 := by
      rwa [Nat.mul_assoc, Nat.mul_comm v]
    omega

theorem reaches_kernel_of_fallback (hfits : request.Fits) (hsize : request.memorySize ≤ 2 ^ 31)
    (happ : request.initialAppMemorySize < 2 ^ 29) (hfallback : request.NeedsFallback)
    (hkernel : 0 < request.initialKernelMemorySize) : request.numSubregions ≤ 16 ∧
      16 * request.unit - request.initialKernelMemorySize <
        request.numSubregions * 2 ^ (request.regionExponent - 3) := by
  have hneeded := request.memorySize_le_blockSize_iff.mpr hsize
  have hblock := request.blockSize_eq
  have hreach := (request.needsFallback_iff hfits hsize happ).mp hfallback
  simp only [memorySize] at hneeded
  have hquotient : request.initialAppMemorySize / request.unit < 16 := by
    rw [Nat.div_lt_iff_lt_mul request.unit_pos]
    omega
  rw [numSubregions_of_fallback happ hfallback, (request.regionSize_of_fallback hfallback).2]
  refine ⟨by omega, hreach.trans_le ?_⟩
  rw [← Nat.mul_assoc]
  exact Nat.mul_le_mul_right _ (by omega)

end Fitting

theorem isolates_release_of_servedSafely (permissions : Permissions)
    (hsafe : request.ServedSafely config) : request.Isolates .release permissions config := by
  intro result config' hres
  obtain ⟨found, hfound⟩ := exists_overlapsAny_release config
    request.unallocatedMemoryStart request.unallocatedMemorySize
  cases found with
  | true =>
    rw [request.allocate_release_overlapping permissions hfound] at hres
    cases hres
    rfl
  | false =>
    rcases hsafe with hoverlap | hsmall | ⟨hsize, happ, hfits, hfallback⟩
    · rw [hfound] at hoverlap
      cases hoverlap
    · obtain ⟨_, hregions⟩ := exists_appRegions_release
        (request.blockStart % 2 ^ 32) (2 ^ request.regionExponent)
        (request.initialAppMemorySize * 8 % 2 ^ 32 / 2 ^ request.regionExponent + 1) permissions
      rw [request.allocate_release permissions hfound hregions, if_pos hsmall] at hres
      cases hres
      rfl
    by_cases hneeds : request.NeedsFallback
    · have hwhole := initialAppMemorySize_of_fallback hfits hsize happ hneeds (hfallback hneeds)
      have hnum : request.numSubregions = 9 := by
        rw [numSubregions_of_fallback happ hneeds, hwhole, Nat.mul_div_cancel _ request.unit_pos]
      obtain ⟨config'', halloc, haccessible⟩ :=
        request.allocate_release_of_fits permissions hfound hfits (by omega)
      rw [halloc] at hres
      cases hres
      refine isolated_of_no_kernel_memory hfits hsize hwhole (hfallback hneeds) ?_ haccessible
      rw [hnum, (request.regionSize_of_fallback hneeds).2]
      omega
    have hnum : request.numSubregions ≤ 16 := by
      have := numSubregions_mul_unit_le hfits hsize happ hneeds
      exact Nat.le_of_mul_le_mul_right (this.trans (Nat.sub_le _ _)) request.unit_pos
    obtain ⟨config'', halloc, haccessible⟩ :=
      request.allocate_release_of_fits permissions hfound hfits hnum
    rw [halloc] at hres
    cases hres
    exact isolated_of_direct hfits hsize happ hneeds haccessible

theorem fits_of_isolated
    (hblock : request.Isolated config (request.blockStart % 2 ^ 32) request.blockSize) :
    request.Fits := by
  have hstart := hblock.start_le
  have hstop := hblock.stop_le
  have hlt := request.blockStart_lt
  have hle := request.blockSize_le
  unfold Fits
  omega

section Necessary

variable {request} {permissions : Permissions} {config : CortexMConfig g}
  (hisolates : request.Isolates .release permissions config)
  (hfree : config.overlapsAny .release request.unallocatedMemoryStart
    request.unallocatedMemorySize = .ok false)
  (hfits : request.Fits) (hsize : request.memorySize ≤ 2 ^ 31)

include hisolates hfree hfits hsize

theorem app_lt_of_isolates : request.initialAppMemorySize < 2 ^ 29 := by
  by_contra hlarge
  obtain ⟨hnum, hshort⟩ := uncovered_of_large_app hsize (by omega)
  obtain ⟨config', halloc, haccessible⟩ :=
    request.allocate_release_of_fits permissions hfree hfits hnum
  have hisolated : request.Isolated config' request.blockStart
    request.blockSize := hisolates _ _ halloc
  have hlast := hisolated.covers (request.blockStart + (request.initialAppMemorySize - 1))
    (by omega) (by omega)
  have := ((haccessible _).mp hlast).2
  omega

theorem no_kernel_memory_of_isolates (hfallback : request.NeedsFallback) :
    request.initialKernelMemorySize = 0 := by
  by_contra hkernel
  have happ := app_lt_of_isolates hisolates hfree hfits hsize
  obtain ⟨hnum, hreach⟩ := reaches_kernel_of_fallback hfits hsize happ hfallback (by omega)
  obtain ⟨config', halloc, haccessible⟩ :=
    request.allocate_release_of_fits permissions hfree hfits hnum
  have hisolated : request.Isolated config' request.blockStart
    request.blockSize := hisolates _ _ halloc
  have hblock := request.blockSize_eq
  have hneeded := request.memorySize_le_blockSize_iff.mpr hsize
  simp only [memorySize, max_le_iff] at hneeded
  -- the first byte of the kernel's memory
  refine hisolated.disjoint (request.blockStart + (16 * request.unit -
      request.initialKernelMemorySize)) (by omega) (by omega) ?_
  exact (haccessible _).mpr ⟨by omega, by omega⟩

end Necessary

theorem servedSafely_of_isolates_release (permissions : Permissions)
    (hisolates : request.Isolates .release permissions config) : request.ServedSafely config := by
  obtain ⟨found, hfound⟩ := exists_overlapsAny_release config
    request.unallocatedMemoryStart request.unallocatedMemorySize
  cases found with
  | true => exact .inl hfound
  | false =>
    refine .inr ?_
    by_cases hsmall : request.unallocatedMemoryStart + request.unallocatedMemorySize <
          request.blockStart + request.blockSize ∧ request.blockStart + request.blockSize < 2 ^ 32
    · exact .inl hsmall
    obtain ⟨_, hregions⟩ := exists_appRegions_release
      (request.blockStart % 2 ^ 32) (2 ^ request.regionExponent)
      (request.initialAppMemorySize * 8 % 2 ^ 32 / 2 ^ request.regionExponent + 1) permissions
    have halloc := request.allocate_release permissions hfound hregions
    rw [if_neg hsmall] at halloc
    have hblock : request.Isolated _ (request.blockStart % 2 ^ 32)
      request.blockSize := hisolates _ _ halloc
    have hsize := request.memorySize_le_blockSize_iff.mp hblock.memorySize_le
    have hfits := request.fits_of_isolated hblock
    exact .inr ⟨hsize, app_lt_of_isolates hisolates hfound hfits hsize,
      hfits, no_kernel_memory_of_isolates hisolates hfound hfits hsize⟩

end AppMemoryRequest

/-! ## Both builds -/

theorem overlapsAny_refines {config : CortexMConfig g} {size : ℕ} :
    Refines (config.overlapsAny .dev start size) (config.overlapsAny .release start size) := by
  apply Refines.anyM
  intro region
  refine .bind .add fun _ => ?_
  cases region.location with
  | none => exact .refl _
  | some location => exact .bind .add fun _ => .refl _

theorem new_refines {logicalStart logicalSize regionStart regionNum : ℕ}
    {subregions : Option (ℕ × ℕ)} :
    Refines (new .dev logicalStart logicalSize regionStart regionSize
        regionNum subregions permissions) (new .release logicalStart logicalSize regionStart
        regionSize regionNum subregions permissions) := by
  refine .bind .sub fun _ => ?_
  cases subregions with
  | none => exact .refl _
  | some bounds =>
    refine .bind ?_ fun _ => .refl _
    exact .foldlM (fun _ _ => .bind .shl fun _ => .refl _) _ _

theorem appRegions_refines {size num : ℕ} : Refines (appRegions .dev start size num permissions)
      (appRegions .release start size num permissions) :=
  .bind .sub fun _ => .bind new_refines fun _ =>
    .ite (.refl _) (.bind .add fun _ => .bind new_refines fun _ =>
      .refl _)

theorem initialSubregions_refines : Refines (initialSubregions .dev app regionSize)
      (initialSubregions .release app regionSize) :=
  .bind .mul fun _ => .bind (.refl _) fun _ => .add

theorem memorySizePo2_refines : Refines (memorySizePo2 .dev minSize app kernel)
      (memorySizePo2 .release minSize app kernel) :=
  .bind .add fun _ => .bind (Math.closestPowerOfTwo_refines _) fun _ =>
    .refl _

theorem planAppMemory_refines {po2 : ℕ} : Refines (planAppMemory .dev start app kernel po2)
      (planAppMemory .release start app kernel po2) :=
  .bind .roundUp fun _ => .bind initialSubregions_refines fun _ =>
    .bind .mul fun _ => .bind .add fun _ => .bind .add fun _ =>
      .bind .sub fun _ => .ite (.bind .mul fun _ => .bind .roundUp fun _ =>
          .bind initialSubregions_refines fun _ => .refl _)
        (.refl _)

theorem allocateAppMemoryRegion_refines {size : ℕ} {config : CortexMConfig g} : Refines
      (allocateAppMemoryRegion .dev start size minSize app kernel permissions config)
      (allocateAppMemoryRegion .release start size minSize app kernel permissions config) := by
  refine .bind overlapsAny_refines fun _ => .ite (.refl _) ?_
  refine .bind memorySizePo2_refines fun po2 => ?_
  cases po2 with
  | none => exact .refl _
  | some po2 =>
    exact .bind planAppMemory_refines fun _ => .bind .add fun _ =>
      .bind .add fun _ => .ite (.refl _) (.bind appRegions_refines fun _ => .refl _)

/-- Exactly the requests served safely are served as the caller relies on, in
whichever way the kernel is built. -/
theorem allocate_app_memory_isolates_iff (request : AppMemoryRequest)
    (permissions : Permissions) (config : CortexMConfig g) :
    (∀ profile, request.Isolates profile permissions config) ↔ request.ServedSafely config := by
  constructor
  · intro h
    exact request.servedSafely_of_isolates_release permissions (h .release)
  · intro hsafe profile
    have hrelease := request.isolates_release_of_servedSafely permissions hsafe
    cases profile with
    | release => exact hrelease
    | dev =>
      intro result config' hres
      exact hrelease result config' (allocateAppMemoryRegion_refines _ hres)

/-- A process that starts with 3000 bytes in a block of 4096, of which the
kernel takes the other 1096. -/
def tightRequest : AppMemoryRequest where
  unallocatedMemoryStart := 0x20000000
  unallocatedMemorySize := 0x10000
  minMemorySize := 4096
  initialAppMemorySize := 3000
  initialKernelMemorySize := 1096
  unallocatedMemoryEnd_lt := by decide
  minMemorySize_lt := by decide
  initialMemorySize_lt := by decide

/-- The process gets access to the first bytes of the kernel's memory: six of
the fallback's subregions of 512 bytes end at byte 3072 of the block. -/
theorem allocate_app_memory_exposes_kernel :
    ¬ tightRequest.Isolates .dev .readWriteOnly (freshConfig cortexM4 1) ∧
    ¬ tightRequest.Isolates .release .readWriteOnly (freshConfig cortexM4 1) := by
  constructor <;> intro hisolates
  all_goals
    exact (hisolates (some (0x20000000, 4096)) _ rfl).disjoint 0x20000BB8
      (by decide) (by decide) (by decide)

end TockKernel.CortexM

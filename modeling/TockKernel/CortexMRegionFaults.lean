import TockKernel.CortexMRegionAllocation

/-!
# When `allocate_region` stops the kernel

The overlap check adds up the ends of the regions before the first that
overlaps. If none does and a slot is free, the region is planned. The build
with overflow checks returns if and only if no sum or product on the way leaves
the word, no divisor is zero and nothing panics.
-/

namespace TockKernel.CortexM

open Arithmetic CortexMRegion CortexMConfig

variable {g : Geometry}

/-! ## The overlap check -/

namespace CortexMRegion

def Overlaps (r : CortexMRegion) (start size : ℕ) : Prop :=
  ∃ regionStart regionSize, r.location = some (regionStart, regionSize) ∧
    regionStart < start + size ∧ start < regionStart + regionSize

def StopInRange (r : CortexMRegion) : Prop :=
  ∀ regionStart regionSize, r.location = some (regionStart, regionSize) →
    regionStart + regionSize < 2 ^ 32

variable {r : CortexMRegion}

section

variable {regionStart regionSize : ℕ} (h : r.location = some (regionStart, regionSize))
include h

theorem overlaps_of_location {start size : ℕ} : r.Overlaps start size ↔
      regionStart < start + size ∧ start < regionStart + regionSize := by
  simp [Overlaps, h]

theorem stopInRange_of_location : r.StopInRange ↔ regionStart + regionSize < 2 ^ 32 := by
  simp [StopInRange, h]

end

theorem overlaps_dev_eq_ok_iff {start size : ℕ} {found : Bool} :
    r.overlaps .dev start size = .ok found ↔ start + size < 2 ^ 32 ∧ r.StopInRange ∧
        (found ↔ r.Overlaps start size) := by
  by_cases hlt : start + size < 2 ^ 32
  · unfold overlaps
    rw [add_of_lt .dev hlt, ok_bind]
    rcases hloc : r.location with _ | ⟨regionStart, regionSize⟩
    · simp only [hlt]
      simp [StopInRange, Overlaps, hloc, pure, Except.pure]
    rw [overlaps_of_location hloc, stopInRange_of_location hloc]
    by_cases hregion : regionStart + regionSize < 2 ^ 32
    · simp only [add_of_lt .dev hregion, ok_bind, pure, Except.pure,
        Except.ok.injEq, hlt, hregion, true_and]
      rw [eq_comm, Bool.eq_iff_iff, decide_eq_true_iff]
    simp only [hregion, false_and, and_false, iff_false]
    intro h
    obtain ⟨_, hend, -⟩ := of_bind_ok h
    exact hregion (add_dev_eq_ok hend).1
  · simp only [hlt, false_and, iff_false]
    intro h
    obtain ⟨_, hend, -⟩ := of_bind_ok h
    exact hlt (add_dev_eq_ok hend).1

end CortexMRegion

namespace CortexMConfig

variable (config : CortexMConfig g) (start size : ℕ)

def FindsOverlap : Prop := ∃ i, (config.regions i).Overlaps start size

/-- The regions up to the first that meets the stretch end inside the address
space. -/
def OverlapCheckInRange : Prop :=
  ∀ i, (∀ j < i, ¬ (config.regions j).Overlaps start size) → (config.regions i).StopInRange

def NoUnusedRegion : Prop :=
  ∀ i : Fin g.numRegions, appMemoryRegionMaxNum < i.val → (config.regions i).location ≠ none

variable {config start size}

theorem unusedRegionNumber_eq_none_iff :
    config.unusedRegionNumber = none ↔ config.NoUnusedRegion := by
  unfold unusedRegionNumber NoUnusedRegion
  simp

theorem overlaps_dev_eq_false_iff {r : CortexMRegion} (hlt : start + size < 2 ^ 32) :
    r.overlaps .dev start size = .ok false ↔ r.StopInRange ∧ ¬ r.Overlaps start size := by
  rw [overlaps_dev_eq_ok_iff]
  simp only [hlt, true_and, Bool.false_eq_true, false_iff]

theorem exists_overlaps_dev_iff {r : CortexMRegion} (hlt : start + size < 2 ^ 32) :
    (∃ found, r.overlaps .dev start size = .ok found) ↔ r.StopInRange := by
  classical
  constructor
  · rintro ⟨found, h⟩
    exact (overlaps_dev_eq_ok_iff.mp h).2.1
  · intro h
    exact ⟨decide (r.Overlaps start size), overlaps_dev_eq_ok_iff.mpr ⟨hlt, h, by simp⟩⟩

theorem exists_overlapsAny_dev_iff : (∃ found, config.overlapsAny .dev start size = .ok found) ↔
      start + size < 2 ^ 32 ∧ config.OverlapCheckInRange start size := by
  unfold overlapsAny
  rw [exists_anyM_eq_ok_iff]
  simp only [List.length_map, List.length_finRange, List.getElem_map, List.getElem_finRange]
  constructor
  · intro h
    have hlt : start + size < 2 ^ 32 := by
      obtain ⟨found, hfound⟩ := h 0 g.region0.isLt fun j hj =>
        absurd hj (Nat.not_lt_zero j)
      exact (overlaps_dev_eq_ok_iff.mp hfound).1
    refine ⟨hlt, ?_⟩
    -- The check reaches region `i` once those before it end in range.
    have hreached : ∀ n (hn : n < g.numRegions), (∀ j < (⟨n, hn⟩ : Fin g.numRegions),
          ¬ (config.regions j).Overlaps start size) → (config.regions ⟨n, hn⟩).StopInRange := by
      intro n
      induction n using Nat.strong_induction_on with
      | _ n ih =>
        intro hn hbefore
        apply (exists_overlaps_dev_iff hlt).mp
        apply h n hn
        intro j hj
        apply (overlaps_dev_eq_false_iff hlt).mpr
        exact ⟨ih j hj (hj.trans hn) fun k hk => hbefore k (hk.trans hj),
          hbefore ⟨j, hj.trans hn⟩ hj⟩
    exact fun i => hreached i.val i.isLt
  · rintro ⟨hlt, hcheck⟩ i hi hbefore
    apply (exists_overlaps_dev_iff hlt).mpr
    apply hcheck ⟨i, hi⟩
    intro j hj
    exact ((overlaps_dev_eq_false_iff hlt).mp (hbefore j hj)).2

theorem overlapsAny_dev_found {found : Bool} (h : config.overlapsAny .dev start size = .ok found) :
    found ↔ config.FindsOverlap start size := by
  obtain ⟨htrue, hfalse⟩ := anyM_eq_ok h
  simp only [List.mem_map, List.mem_finRange, true_and, exists_exists_eq_and, forall_exists_index,
    forall_apply_eq_imp_iff] at htrue hfalse
  constructor
  · intro hfound
    obtain ⟨i, hi⟩ := htrue hfound
    exact ⟨i, (overlaps_dev_eq_ok_iff.mp hi).2.2.mp rfl⟩
  · rintro ⟨i, hi⟩
    cases found with
    | true => rfl
    | false =>
      have hnot := overlaps_dev_eq_ok_iff.mp (hfalse rfl i)
      exact hnot.2.2.mpr hi

end CortexMConfig

/-! ## Planning a region -/

theorem shiftUp_dev_eq_ok {start size : ℕ} {plan : RegionPlan}
    (h : shiftUp .dev start size = .ok plan) : size ≤ 2 ^ 31 ∧ plan.start = start +
        (2 ^ Nat.clog 2 size - start % 2 ^ Nat.clog 2 size) ∧ plan.size = 2 ^ Nat.clog 2 size := by
  obtain ⟨_, hpower, h⟩ := of_bind_ok h
  obtain ⟨hle, rfl⟩ := Math.closestPowerOfTwo_dev_eq_ok hpower
  obtain ⟨_, hexcess, h⟩ := of_bind_ok h
  obtain ⟨-, rfl⟩ := rem_eq_ok hexcess
  obtain ⟨_, hgap, h⟩ := of_bind_ok h
  obtain ⟨-, rfl⟩ := sub_dev_eq_ok hgap
  obtain ⟨-, h⟩ := of_add_dev_bind h
  cases h
  exact ⟨hle, rfl, rfl⟩

namespace RegionRequest

variable {request : RegionRequest}

theorem subregionSizeFor_dev_eq_ok {subregionSize : ℕ}
    (h : subregionSizeFor .dev (request.start g) (request.size g) = .ok subregionSize) :
    subregionSize = request.subregionSize g := by
  unfold subregionSizeFor at h
  unfold RegionRequest.subregionSize
  by_cases htz : Math.trailingZeros (request.start g) < 32
  · simp only [htz] at h ⊢
    cases h
    rfl
  simp only [htz] at h ⊢
  obtain ⟨_, hceil, h⟩ := of_bind_ok h
  obtain ⟨-, rfl⟩ := Math.closestPowerOfTwo_dev_eq_ok hceil
  cases h
  split <;> congr 1 <;> omega

variable {plan : RegionPlan}

theorem coverUnaligned_dev_eq_ok
    (h : coverUnaligned .dev (request.start g) (request.size g) = .ok plan) :
    request.subregionSize g * 8 < 2 ^ 32 ∧ request.start g + request.roundedSize g < 2 ^ 32 ∧
      request.underlyingStart g + request.subregionSize g * 8 < 2 ^ 32 ∧
      (¬ request.CoveredBySubregions g →
        shiftUp .dev (request.start g) (request.roundedSize g) = .ok plan) := by
  obtain ⟨_, hsubregion, h⟩ := of_bind_ok h
  obtain rfl := subregionSizeFor_dev_eq_ok hsubregion
  obtain ⟨_, hmul, h⟩ := of_bind_ok h
  obtain ⟨hword, rfl⟩ := mul_dev_eq_ok hmul
  obtain ⟨_, hexcess, h⟩ := of_bind_ok h
  obtain ⟨-, rfl⟩ := rem_eq_ok hexcess
  obtain ⟨_, hsub, h⟩ := of_bind_ok h
  obtain ⟨-, rfl⟩ := sub_dev_eq_ok hsub
  obtain ⟨_, hround, h⟩ := of_bind_ok h
  obtain rfl := roundUp_dev_eq_ok hround
  obtain ⟨hstopLt, h⟩ := of_add_dev_bind h
  obtain ⟨hunderLt, h⟩ := of_add_dev_bind h
  refine ⟨hword, hstopLt, hunderLt, ?_⟩
  intro hcovered
  have hnot : ¬ (32 ≤ request.subregionSize g ∧
      request.start g + alignUp (request.size g) (request.subregionSize g) ≤
        request.start g - request.start g % (request.subregionSize g * 8) +
          request.subregionSize g * 8) := hcovered
  rwa [if_neg hnot] at h

section

variable (hend : request.unallocatedMemoryStart + request.unallocatedMemorySize < 2 ^ 32)
include hend

theorem inRange_of_coverUnaligned
    (hplan : coverUnaligned .dev (request.start g) (request.size g) = .ok plan)
    (hstop : plan.start + plan.size < 2 ^ 32) : request.InRange g := by
  obtain ⟨hword, hrounded, hunder, hshift⟩ := coverUnaligned_dev_eq_ok hplan
  have hsize : request.size g ≤ request.roundedSize g := le_alignUp _ _
  refine ⟨hend, by omega, fun _ => ⟨hword, hrounded, hunder⟩, ?_⟩
  intro _ hcovered
  obtain ⟨-, hplanStart, hplanSize⟩ := shiftUp_dev_eq_ok (hshift hcovered)
  have hsum : request.shiftedStart g + request.shiftedSize g < 2 ^ 32 := by
    rw [hplanStart, hplanSize] at hstop
    exact hstop
  exact ⟨by omega, hsum⟩

theorem inRange_of_planRegion
    (hplan : planRegion g .dev request.unallocatedMemoryStart request.minRegionSize = .ok plan)
    (hstop : plan.start + plan.size < 2 ^ 32) : request.InRange g := by
  obtain ⟨_, hstart, hplan⟩ := of_bind_ok hplan
  obtain rfl := roundUp_dev_eq_ok hstart
  have hsize : (if request.minRegionSize < g.minRegionSize
      then g.minRegionSize else request.minRegionSize) = request.size g := by
    unfold RegionRequest.size
    split <;> omega
  simp only [hsize] at hplan
  obtain ⟨_, hexcess, hplan⟩ := of_bind_ok hplan
  obtain ⟨-, rfl⟩ := rem_eq_ok hexcess
  split at hplan
  · exact inRange_of_coverUnaligned hend hplan hstop
  rename_i haligned
  cases hplan
  exact ⟨hend, hstop, fun h => absurd h haligned, fun h => absurd h haligned⟩

end

/-- Nothing that the request makes `allocate_region` compute leaves the word. -/
structure FaultFree (request : RegionRequest) (config : CortexMConfig g) : Prop where
  unallocatedEnd_lt : request.unallocatedMemoryStart + request.unallocatedMemorySize < 2 ^ 32
  overlapCheck : config.OverlapCheckInRange request.unallocatedMemoryStart
    request.unallocatedMemorySize
  planned : config.FindsOverlap request.unallocatedMemoryStart request.unallocatedMemorySize ∨
    config.NoUnusedRegion ∨ request.InRange g

theorem exists_allocate_planned_iff {config : CortexMConfig g}
    (permissions : Permissions) {i : Fin g.numRegions}
    (hend : request.unallocatedMemoryStart + request.unallocatedMemorySize < 2 ^ 32)
    (hfound : config.overlapsAny .dev request.unallocatedMemoryStart
      request.unallocatedMemorySize = .ok false) (hunused : config.unusedRegionNumber = some i) :
    (∃ outcome, allocateRegion .dev request.unallocatedMemoryStart
        request.unallocatedMemorySize request.minRegionSize permissions
        config = .ok outcome) ↔ request.InRange g := by
  simp only [allocateRegion, hfound, ok_bind, hunused, Bool.false_eq_true, if_false]
  constructor
  · rintro ⟨outcome, h⟩
    obtain ⟨plan, hplan, h⟩ := of_bind_ok h
    obtain ⟨_, hstop, -⟩ := of_bind_ok h
    exact inRange_of_planRegion hend hplan (add_dev_eq_ok hstop).1
  · intro hrange
    obtain ⟨plan, hplan, hexact, -, -⟩ := planRegion_exact .dev hrange
    obtain ⟨r, hr, -⟩ := hexact.new_covers .dev i permissions
    simp only [hplan, ok_bind, add_of_lt .dev hexact.stop_lt, add_of_lt .dev hend, hr]
    split
    all_goals exact ⟨_, rfl⟩

end RegionRequest

/-- `allocate_region` overflows nowhere, divides by nothing that is zero and
does not panic exactly for the requests that are free of faults. -/
theorem allocate_region_no_fault_iff (config : CortexMConfig g)
    (request : RegionRequest) (permissions : Permissions) :
    (∃ outcome, allocateRegion .dev request.unallocatedMemoryStart
        request.unallocatedMemorySize request.minRegionSize permissions
        config = .ok outcome) ↔ request.FaultFree config := by
  by_cases hcheck : ∃ found, config.overlapsAny .dev
      request.unallocatedMemoryStart request.unallocatedMemorySize = .ok found
  · obtain ⟨hend, hrange⟩ := exists_overlapsAny_dev_iff.mp hcheck
    obtain ⟨found, hfound⟩ := hcheck
    have hiff := overlapsAny_dev_found hfound
    cases found with
    | true =>
      have hleft : ∃ outcome, allocateRegion .dev
          request.unallocatedMemoryStart request.unallocatedMemorySize
          request.minRegionSize permissions config = .ok outcome := by
        simp only [allocateRegion, hfound]
        exact ⟨_, rfl⟩
      exact iff_of_true hleft ⟨hend, hrange, .inl (hiff.mp rfl)⟩
    | false =>
      have hfree : ¬ config.FindsOverlap request.unallocatedMemoryStart
          request.unallocatedMemorySize := by simpa using hiff
      cases hunused : config.unusedRegionNumber with
      | none =>
        have hleft : ∃ outcome, allocateRegion .dev
            request.unallocatedMemoryStart request.unallocatedMemorySize
            request.minRegionSize permissions config = .ok outcome := by
          simp only [allocateRegion, hfound, hunused]
          exact ⟨_, rfl⟩
        exact iff_of_true hleft ⟨hend, hrange, .inr (.inl
          (unusedRegionNumber_eq_none_iff.mp hunused))⟩
      | some i =>
        rw [RegionRequest.exists_allocate_planned_iff permissions hend hfound hunused]
        have hused : ¬ config.NoUnusedRegion := by
          rw [← unusedRegionNumber_eq_none_iff, hunused]
          simp
        constructor
        · intro h
          exact ⟨hend, hrange, .inr (.inr h)⟩
        · rintro ⟨-, -, h⟩
          exact (h.resolve_left hfree).resolve_left hused
  · apply iff_of_false
    · rintro ⟨outcome, h⟩
      obtain ⟨found, hfound, -⟩ := of_bind_ok h
      exact hcheck ⟨found, hfound⟩
    · intro h
      exact hcheck (exists_overlapsAny_dev_iff.mpr ⟨h.unallocatedEnd_lt, h.overlapCheck⟩)

/-- At the base of SRAM the eighths would be `2 ^ 29` bytes large, so the
product with eight overflows, and without overflow checks it is zero and divides
the start. -/
theorem allocate_region_faults_at_sram_base : 0x20000000 + 0x10000 ≤ 2 ^ 32 ∧ 96 ≤ 0x10000 ∧
      allocateRegion .dev 0x20000000 0x10000 96 .readWriteOnly
        (freshConfig cortexM4 1) = .error .overflow ∧
      allocateRegion .release 0x20000000 0x10000 96 .readWriteOnly
        (freshConfig cortexM4 1) = .error .divisionByZero := by
  refine ⟨by decide, by decide, ?_, ?_⟩
  · rfl
  · rfl

end TockKernel.CortexM

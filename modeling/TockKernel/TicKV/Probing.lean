import TockKernel.TicKV.Store

/-!
# The regions that are tried

`increment_region_offset` names the other regions one after another, nearer
ones first, by an offset from the home region. Its loop has no bound of its
own: `Increments` is the loop without the fuel of `incrementLoop`. The offsets of
`incrementLoop` are integers; `isizeLoop` computes them in `isize`.
-/

namespace TockKernel.TicKV

open Arithmetic (Profile Trap)

/-- The offset that one round of the loop turns to. -/
def nextOffset (offset : ℤ) : ℤ :=
  if offset = 0 then 1 else if 0 < offset then -offset else -offset + 1

variable (profile : Profile)

/-- A sum of two values of `isize`, which has 32 bits. -/
def addIsize (x y : ℤ) : Except Trap ℤ :=
  if -2 ^ 31 ≤ x + y ∧ x + y < 2 ^ 31 then
    .ok (x + y)
  else
    match profile with
    | .dev => .error .overflow
    | .release => .ok ((x + y).bmod (2 ^ 32))

/-- `value as isize`. -/
def asIsize (value : ℕ) : ℤ := (value : ℤ).bmod (2 ^ 32)

def nextIsize (offset : ℤ) : Except Trap ℤ := do
  if offset = 0 then
    return 1
  else if 0 < offset then
    addIsize profile 0 (-offset)
  else
    addIsize profile (← addIsize profile 0 (-offset)) 1

def isizeLoop (profile : Profile) (numRegion region : ℕ) :
    ℕ → ℤ → Bool → Bool → Except Trap (Option ℤ)
  | 0, _, _, _ => .ok none
  | fuel + 1, offset, tooBig, tooSmall =>
    if !tooBig || !tooSmall then do
      let newOffset ← nextIsize profile offset
      let newRegion ← addIsize profile (asIsize region) newOffset
      if newRegion > asIsize (numRegion - 1) then
        isizeLoop profile numRegion region fuel newOffset true tooSmall
      else if newRegion < 0 then
        isizeLoop profile numRegion region fuel newOffset tooBig true
      else
        return some newOffset
    else
      .ok none

/-- A run of the loop to its end, in which no offset exceeds the number of regions. -/
inductive Increments (n region : ℕ) : ℤ → Bool → Bool → Option ℤ → Prop
  | done {offset : ℤ} : Increments n region offset true true none
  | tooBig {offset : ℤ} {tooBig tooSmall : Bool} {result : Option ℤ} :
      (!tooBig || !tooSmall) = true → (nextOffset offset).natAbs ≤ n →
      region + nextOffset offset > (n : ℤ) - 1 →
      Increments n region (nextOffset offset) true tooSmall result →
      Increments n region offset tooBig tooSmall result
  | tooSmall {offset : ℤ} {tooBig tooSmall : Bool} {result : Option ℤ} :
      (!tooBig || !tooSmall) = true → (nextOffset offset).natAbs ≤ n →
      region + nextOffset offset < 0 →
      Increments n region (nextOffset offset) tooBig true result →
      Increments n region offset tooBig tooSmall result
  | found {offset : ℤ} {tooBig tooSmall : Bool} :
      (!tooBig || !tooSmall) = true → (nextOffset offset).natAbs ≤ n →
      InRange n region (nextOffset offset) →
      Increments n region offset tooBig tooSmall (some (nextOffset offset))

variable {S n region fuel : ℕ} {t : TicKV S} {offset other : ℤ} {tooBig tooSmall : Bool}
  {result : Option ℤ}

theorem rank_cases (offset : ℤ) : 0 < offset ∧ (rank offset : ℤ) = 2 * offset - 1 ∨
      offset ≤ 0 ∧ (rank offset : ℤ) = -2 * offset := by
  unfold rank
  split_ifs
  all_goals omega

theorem rank_nextOffset (offset : ℤ) : rank (nextOffset offset) = rank offset + 1 := by
  have h := rank_cases offset
  have hnext := rank_cases (nextOffset offset)
  unfold nextOffset at hnext ⊢
  all_goals omega

theorem rank_injective : Function.Injective rank := by
  intro offset other h
  have hoffset := rank_cases offset
  have hother := rank_cases other
  omega

/-- The fuel of `incrementLoop` is never what ends it. -/
theorem increments_incrementLoop (hregion : region < n)
    (hbig : 2 * n ≤ rank offset + 1 → tooBig = true)
    (hsmall : 2 * n ≤ rank offset → tooSmall = true)
    (hfuel : 2 * n ≤ rank offset + fuel) : Increments n region offset tooBig tooSmall
      (incrementLoop n region fuel offset tooBig tooSmall) := by
  induction fuel generalizing offset tooBig tooSmall with
  | zero =>
    rw [hbig (by omega), hsmall (by omega)]
    exact .done
  | succ fuel ih =>
    rw [incrementLoop, ← nextOffset]
    by_cases hflags : (!tooBig || !tooSmall) = true
    · have hrank := rank_nextOffset offset
      have hnext := rank_cases (nextOffset offset)
      have hlt : rank offset < 2 * n := by
        by_contra hge
        simp [hbig (by omega), hsmall (by omega)] at hflags
      have habs : (nextOffset offset).natAbs ≤ n := by omega
      simp only [hflags, if_true]
      split_ifs with htoo hlow
      · exact .tooBig hflags habs htoo (ih (by simp) (by omega) (by omega))
      · exact .tooSmall hflags habs hlow (ih (fun _ => hbig (by omega)) (by simp) (by omega))
      · exact .found hflags habs ⟨by omega, by omega⟩
    · obtain ⟨rfl, rfl⟩ : tooBig = true ∧ tooSmall = true := by simpa using hflags
      exact .done

theorem addIsize_eq {x y : ℤ} (h : -2 ^ 31 ≤ x + y ∧ x + y < 2 ^ 31) :
    addIsize profile x y = .ok (x + y) :=
  if_pos h

theorem asIsize_eq {value : ℕ} (h : value < 2 ^ 31) : asIsize value = value := by
  unfold asIsize
  rw [Int.bmod_eq_of_le] <;> omega

theorem nextIsize_eq (h : (nextOffset offset).natAbs ≤ 2 ^ 30) :
    nextIsize profile offset = .ok (nextOffset offset) := by
  unfold nextIsize nextOffset at *
  split_ifs at h ⊢
  · rfl
  · rw [addIsize_eq profile (by omega), zero_add]
  · rw [addIsize_eq profile (by omega), zero_add]
    exact addIsize_eq profile (by omega)

/-- As long as there are no more than 2 ^ 30 regions, `isize` has room for what the
loop computes. -/
theorem isizeLoop_eq (hn : n ≤ 2 ^ 30) (hregion : region < n)
    (hbig : 2 * n ≤ rank offset + 1 → tooBig = true)
    (hsmall : 2 * n ≤ rank offset → tooSmall = true) :
    isizeLoop profile n region fuel offset tooBig tooSmall =
      .ok (incrementLoop n region fuel offset tooBig tooSmall) := by
  induction fuel generalizing offset tooBig tooSmall with
  | zero => rfl
  | succ fuel ih =>
    rw [isizeLoop, incrementLoop, ← nextOffset]
    by_cases hflags : (!tooBig || !tooSmall) = true
    · have hrank := rank_nextOffset offset
      have hnext := rank_cases (nextOffset offset)
      have hlt : rank offset < 2 * n := by
        by_contra hge
        simp [hbig (by omega), hsmall (by omega)] at hflags
      have hoffset : nextIsize profile offset = .ok (nextOffset offset) :=
        nextIsize_eq profile (by omega)
      have hhome : asIsize region = region := asIsize_eq (by omega)
      have hlast : asIsize (n - 1) = (n : ℤ) - 1 := (asIsize_eq (by omega)).trans (by omega)
      have hsum : addIsize profile region (nextOffset offset) = .ok (region + nextOffset offset) :=
        addIsize_eq profile (by omega)
      rw [if_pos hflags, if_pos hflags, hoffset, Arithmetic.ok_bind, hhome, hsum,
        Arithmetic.ok_bind, hlast]
      dsimp only
      split_ifs with htoo hlow
      · exact ih (by simp) (by omega)
      · exact ih (fun _ => hbig (by omega)) (by simp)
      · rfl
    · simp only [hflags, Bool.false_eq_true, if_false]

/-- No region that is still to come is passed over. -/
theorem Increments.nearest (h : Increments n region offset tooBig tooSmall result)
    (hbig : tooBig = true → n ≤ region + offset.natAbs)
    (hsmall : tooSmall = true → region < offset.natAbs)
    (hother : InRange n region other) (hlt : rank offset < rank other) :
    ∃ next, result = some next ∧ rank next ≤ rank other := by
  obtain ⟨hlow, hhigh⟩ := hother
  have hcases := rank_cases other
  -- An offset that is passed over is out of range, so it is another one.
  have hpassed (offset : ℤ) (hlt : rank offset < rank other)
      (hout : nextOffset offset ≠ other) : rank (nextOffset offset) < rank other ∧
        offset.natAbs ≤ (nextOffset offset).natAbs := by
    have hrank := rank_nextOffset offset
    have hoffset := rank_cases offset
    have hnext := rank_cases (nextOffset offset)
    exact ⟨by omega, by omega⟩
  induction h with
  | @done offset =>
    have hn := hbig rfl
    have hr := hsmall rfl
    have hoffset := rank_cases offset
    omega
  | tooBig _ _ htoo _ ih =>
    obtain ⟨hnext, habs⟩ := hpassed _ hlt (by omega)
    refine ih (fun _ => ?_) (fun hflag => (hsmall hflag).trans_le habs) hnext
    clear ih
    omega
  | tooSmall _ _ hneg _ ih =>
    obtain ⟨hnext, habs⟩ := hpassed _ hlt (by omega)
    refine ih (fun hflag => (hbig hflag).trans (Nat.add_le_add_left habs _)) (fun _ => ?_) hnext
    clear ih
    omega
  | @found offset =>
    exact ⟨_, rfl, (rank_nextOffset offset).trans_le hlt⟩

theorem increments_of_inRange (hregion : region < n) (hrange : InRange n region offset) :
    Increments n region offset false false
      (incrementLoop n region (2 * n + 2) offset false false) := by
  obtain ⟨hlow, hhigh⟩ := hrange
  have hcases := rank_cases offset
  exact increments_incrementLoop hregion (by omega) (by omega) (by omega)

/-- The offsets that `increment_region_offset` names, each from the one before, until it
returns `None`. -/
inductive Tried (t : TicKV S) (region : ℕ) : ℤ → List ℤ → Prop
  | last {offset : ℤ} : t.incrementRegionOffset region offset = none → t.Tried region offset []
  | next {offset next : ℤ} {rest : List ℤ} : t.incrementRegionOffset region offset = some next →
      t.Tried region next rest → t.Tried region offset (next :: rest)

theorem exists_tried (hregion : region < t.numRegion)
    (hrange : InRange t.numRegion region offset) : ∃ offsets, t.Tried region offset offsets ∧
      offsets.Nodup ∧ ∀ other, other ∈ offsets ↔
        InRange t.numRegion region other ∧ rank offset < rank other := by
  refine probe_induction (P := fun _ offset => ∃ offsets, t.Tried region offset offsets ∧
      offsets.Nodup ∧ ∀ other, other ∈ offsets ↔
        InRange t.numRegion region other ∧ rank offset < rank other)
    hregion (fun _ offset hlt hback ih => ?_) hrange (Nat.le_add_left ..)
  have hnearest (other : ℤ) (hother : InRange t.numRegion region other) :=
    (increments_of_inRange hregion (show InRange _ _ offset from
      ⟨by omega, by omega⟩)).nearest (by simp) (by simp) hother
  cases hnext : t.incrementRegionOffset region offset with
  | none =>
    refine ⟨[], .last hnext, List.nodup_nil, fun other => ⟨by simp, fun ⟨hother, hrank⟩ => ?_⟩⟩
    obtain ⟨next, hsome, -⟩ := hnearest other hother hrank
    cases hnext.symm.trans hsome
  | some next =>
    obtain ⟨hin, hfirst⟩ := incrementLoop_some hnext
    obtain ⟨rest, htried, hnodup, hmem⟩ := ih next hnext
    refine ⟨next :: rest, .next hnext htried, List.nodup_cons.mpr ⟨?_, hnodup⟩, fun other => ?_⟩
    · simp [hmem]
    · rw [List.mem_cons, hmem]
      constructor
      · rintro (rfl | ⟨hother, hrank⟩)
        · exact ⟨hin, hfirst⟩
        · exact ⟨hother, hfirst.trans hrank⟩
      · rintro ⟨hother, hrank⟩
        obtain ⟨_, hsome, hle⟩ := hnearest other hother hrank
        cases hnext.symm.trans hsome
        rcases hle.eq_or_lt with heq | hlater
        · exact .inl (rank_injective heq).symm
        · exact .inr ⟨hother, hlater⟩

/-- From offset 0 every other region is tried exactly once and nothing else, and then there
is no next one. Every call on the way returns, without an offset beyond the number of regions,
and `isize` computes the same. -/
theorem tried_every_region (t : TicKV S) (region : ℕ) (hregion : region < t.numRegion)
    (hn : t.numRegion ≤ 2 ^ 30) :
    ∃ offsets, t.Tried region 0 offsets ∧
      (offsets.map ((region : ℤ) + ·)).Perm (((List.range t.numRegion).erase region).map (↑)) ∧
      ∀ offset ∈ 0 :: offsets, Increments t.numRegion region offset false false
          (t.incrementRegionOffset region offset) ∧
        ∀ profile, isizeLoop profile t.numRegion region (2 * t.numRegion + 2) offset false false =
          .ok (t.incrementRegionOffset region offset) := by
  have hhome : InRange t.numRegion region 0 := ⟨by omega, by omega⟩
  obtain ⟨offsets, htried, hnodup, hmem⟩ := exists_tried hregion hhome
  refine ⟨offsets, htried, ?_, fun offset hoffset => ?_⟩
  · refine (List.perm_ext_iff_of_nodup (hnodup.map (add_right_injective _))
      ((List.nodup_range.erase region).map Nat.cast_injective)).mpr fun other => ?_
    simp only [List.mem_map, hmem, List.nodup_range.mem_erase_iff, List.mem_range]
    constructor
    · rintro ⟨offset, ⟨⟨hlow, hhigh⟩, hrank⟩, rfl⟩
      have hne : offset ≠ 0 := fun hzero => hrank.ne (by rw [hzero])
      exact ⟨(region + offset).toNat, ⟨by omega, by omega⟩, by omega⟩
    · rintro ⟨other, ⟨hne, hlt⟩, rfl⟩
      have hzero : rank 0 = 0 := rfl
      have hcases := rank_cases (other - region)
      exact ⟨other - region, ⟨⟨by omega, by omega⟩, by omega⟩, by omega⟩
  · have hrange : InRange t.numRegion region offset := by
      rcases List.mem_cons.mp hoffset with rfl | hlater
      · exact hhome
      · exact ((hmem offset).mp hlater).1
    refine ⟨increments_of_inRange hregion hrange, fun profile => ?_⟩
    obtain ⟨hlow, hhigh⟩ := hrange
    have hcases := rank_cases offset
    exact isizeLoop_eq profile hn hregion (by omega) (by omega)

theorem tried_every_region_three :
    ∃ offsets, Tried (S := 16) ⟨fun _ => 0xFF, 48, true⟩ 2 0 offsets ∧
      (offsets.map ((2 : ℤ) + ·)).Perm [0, 1] := by
  obtain ⟨offsets, htried, hperm, -⟩ :=
    tried_every_region (S := 16) ⟨fun _ => 0xFF, 48, true⟩ 2 (by decide) (by decide)
  exact ⟨offsets, htried, hperm⟩

/-- With 2 ^ 31 - 1 regions the second call from the last one overflows. -/
theorem increment_overflows :
    isizeLoop .dev (2 ^ 31 - 1) (2 ^ 31 - 2) 2 0 false false = .ok (some (-1)) ∧ ∀ fuel,
      isizeLoop .dev (2 ^ 31 - 1) (2 ^ 31 - 2) (fuel + 1) (-1) false false = .error .overflow :=
  ⟨rfl, fun _ => rfl⟩

/-! ## A full flash -/

end TockKernel.TicKV

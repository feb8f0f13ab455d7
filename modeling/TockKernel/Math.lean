import TockKernel.Arithmetic
import Mathlib.Data.Nat.Bitwise
import Mathlib.Data.Nat.Size
import Mathlib.Data.List.Perm.Subperm

/-!
# The kernel's mathematics helpers

`kernel::utilities::math`, with the two integer intrinsics that the MPU driver
uses next to it. `closest_power_of_two` fills the bits below the highest one
and adds one; both the subtraction before and the addition after that can leave
the word.
-/

namespace TockKernel

open Arithmetic Nat

namespace Math

/-- `num` with every bit below a set bit set as well. -/
def fillBelow (num : ℕ) : ℕ :=
  let num := num ||| num >>> 1
  let num := num ||| num >>> 2
  let num := num ||| num >>> 4
  let num := num ||| num >>> 8
  num ||| num >>> 16

def closestPowerOfTwo (profile : Profile) (num : ℕ) : Except Trap ℕ := do
  let num ← sub 32 profile num 1
  add 32 profile (fillBelow num) 1

def logBaseTwo (num : ℕ) : ℕ :=
  if num = 0 then 0 else Nat.log 2 num

def trailingZeros (num : ℕ) : ℕ :=
  ((List.range 32).find? num.testBit).getD 32

def countOnes (num : ℕ) : ℕ :=
  ((List.range 32).filter num.testBit).length

/-! ## Filling bits -/

/-- Bit `i` of `filled` says whether `num` has a bit among the `k` bits from
`i` upwards. -/
def Filled (num k filled : ℕ) : Prop :=
  ∀ i, filled.testBit i = true ↔ ∃ d, d < k ∧ num.testBit (i + d) = true

theorem Filled.one (num : ℕ) : Filled num 1 num := by
  intro i
  constructor
  · intro h
    exact ⟨0, Nat.one_pos, h⟩
  · rintro ⟨d, hd, h⟩
    rwa [Nat.lt_one_iff.mp hd] at h

variable {num : ℕ}

theorem Filled.double {k filled : ℕ} (h : Filled num k filled) :
    Filled num (k + k) (filled ||| filled >>> k) := by
  intro i
  rw [testBit_lor, testBit_shiftRight, Bool.or_eq_true, h i, h (k + i)]
  constructor
  · rintro (⟨d, hd, hbit⟩ | ⟨d, hd, hbit⟩)
    · exact ⟨d, by omega, hbit⟩
    · exact ⟨k + d, by omega, by rwa [show i + (k + d) = k + i + d by omega]⟩
  · rintro ⟨d, hd, hbit⟩
    by_cases hlow : d < k
    · exact .inl ⟨d, hlow, hbit⟩
    · exact .inr ⟨d - k, by omega, by rwa [show k + i + (d - k) = i + d by omega]⟩

theorem filled_fillBelow (num : ℕ) : Filled num 32 (fillBelow num) :=
  (Filled.one num).double.double.double.double.double

theorem fillBelow_eq (h : num < 2 ^ 32) : fillBelow num = 2 ^ num.size - 1 := by
  apply eq_of_testBit_eq
  intro i
  rw [testBit_two_pow_sub_one, Bool.eq_iff_iff, filled_fillBelow num i, decide_eq_true_iff]
  constructor
  · rintro ⟨d, -, hbit⟩
    have hle := lt_size.mpr (ge_two_pow_of_testBit hbit)
    omega
  · intro hi
    -- the highest bit is at most 31 places above `i`
    have hne : num ≠ 0 := by
      rintro rfl
      simp at hi
    have htop : num.testBit num.log2 := testBit_log2 hne
    have hsize : num.size ≤ num.log2 + 1 := size_le.mpr lt_log2_self
    have hlog : num.log2 < 32 := (log2_lt hne).mpr h
    exact ⟨num.log2 - i, by omega, by rwa [show i + (num.log2 - i) = num.log2 by omega]⟩

theorem size_pred_eq_clog (h : 0 < num) : (num - 1).size = Nat.clog 2 num := by
  have hiff : ∀ k, (num - 1).size ≤ k ↔ Nat.clog 2 num ≤ k := by
    intro k
    rw [Nat.size_le, Nat.clog_le_iff_le_pow Nat.one_lt_two]
    omega
  exact le_antisymm ((hiff _).mpr le_rfl) ((hiff _).mp le_rfl)

theorem closestPowerOfTwo_of_le (profile : Profile) (hpos : 0 < num) (hle : num ≤ 2 ^ 31) :
    closestPowerOfTwo profile num = .ok (2 ^ Nat.clog 2 num) := by
  have hclog : Nat.clog 2 num ≤ 31 := Nat.clog_le_of_le_pow hle
  have hpow : 2 ^ Nat.clog 2 num ≤ 2 ^ 31 := Nat.pow_le_pow_right Nat.two_pos hclog
  have hone : 0 < 2 ^ Nat.clog 2 num := Nat.two_pow_pos _
  unfold closestPowerOfTwo
  rw [sub_of_le profile hpos]
  simp only [bind, Except.bind]
  rw [fillBelow_eq (by omega), size_pred_eq_clog hpos,
    add_of_lt profile (by omega), Nat.sub_add_cancel hone]

theorem closestPowerOfTwo_release_zero (hlt : num < 2 ^ 32) (h : num = 0 ∨ 2 ^ 31 < num) :
    closestPowerOfTwo .release num = .ok 0 := by
  have hpred : ∃ pred, sub 32 .release num 1 = .ok pred ∧ pred < 2 ^ 32 ∧ 2 ^ 31 ≤ pred := by
    rcases h with rfl | hbig
    · exact ⟨2 ^ 32 - 1, rfl, by decide, by decide⟩
    · exact ⟨num - 1, sub_of_le _ (by omega), by omega, by omega⟩
  obtain ⟨pred, hsub, hpredlt, hpredle⟩ := hpred
  have hsize : pred.size = 32 := le_antisymm (size_le.mpr hpredlt) (lt_size.mpr hpredle)
  unfold closestPowerOfTwo
  rw [hsub]
  simp only [bind, Except.bind]
  rw [fillBelow_eq hpredlt, hsize]
  rfl

theorem closestPowerOfTwo_refines (num : ℕ) :
    Refines (closestPowerOfTwo .dev num) (closestPowerOfTwo .release num) :=
  .bind .sub fun _ => .add

theorem le_fillBelow (num : ℕ) : num ≤ fillBelow num := by
  refine le_trans ?_ left_le_or
  refine le_trans ?_ left_le_or
  refine le_trans ?_ left_le_or
  refine le_trans ?_ left_le_or
  exact left_le_or

theorem closestPowerOfTwo_dev_eq_ok {result : ℕ} (h : closestPowerOfTwo .dev num = .ok result) :
    num ≤ 2 ^ 31 ∧ result = 2 ^ clog 2 num := by
  have hrelease := closestPowerOfTwo_refines num result h
  obtain ⟨_, hpred, hadd⟩ := of_bind_ok h
  obtain ⟨hpos, rfl⟩ := sub_dev_eq_ok hpred
  obtain ⟨hlt, hres⟩ := add_dev_eq_ok hadd
  have hfill := le_fillBelow (num - 1)
  have hle : num ≤ 2 ^ 31 := by
    by_contra hlarge
    rw [closestPowerOfTwo_release_zero (by omega) (.inr (not_le.mp hlarge))] at hrelease
    cases hrelease
    omega
  rw [closestPowerOfTwo_of_le .dev hpos hle] at h
  cases h
  exact ⟨hle, rfl⟩

@[simp] theorem logBaseTwo_two_pow (k : ℕ) : logBaseTwo (2 ^ k) = k := by
  rw [logBaseTwo, if_neg (Nat.two_pow_pos k).ne', Nat.log_pow Nat.one_lt_two]

/-! ## Intrinsics -/

theorem two_pow_trailingZeros_dvd (h : trailingZeros num < 32) : 2 ^ trailingZeros num ∣ num := by
  unfold trailingZeros at *
  cases hfind : (List.range 32).find? num.testBit with
  | none =>
    rw [hfind] at h
    simp at h
  | some k =>
    have hlow := (List.find?_range_eq_some.mp hfind).2.2
    apply dvd_of_mod_eq_zero
    apply zero_of_testBit_eq_false
    intro i
    by_cases hi : i < k
    · simp_all
    · simp [hi]

theorem eq_zero_of_trailingZeros (hlt : num < 2 ^ 32) (h : ¬ trailingZeros num < 32) : num = 0 := by
  unfold trailingZeros at h
  cases hfind : (List.range 32).find? num.testBit with
  | some k =>
    rw [hfind] at h
    exact absurd (List.mem_range.mp (List.mem_of_find?_eq_some hfind)) h
  | none =>
    apply Nat.zero_of_testBit_eq_false
    intro i
    by_cases hi : i < 32
    · simpa using List.find?_eq_none.mp hfind i (List.mem_range.mpr hi)
    · exact Nat.testBit_eq_false_of_lt (hlt.trans_le (Nat.pow_le_pow_right Nat.two_pos (by omega)))

theorem eq_two_pow_of_countOnes_le (hpos : 0 < num) (hlt : num < 2 ^ 32)
    (hones : ¬ 1 < countOnes num) : num = 2 ^ Nat.log 2 num := by
  rw [← Nat.log2_eq_log_two]
  have htop : num.testBit num.log2 := Nat.testBit_log2 hpos.ne'
  have hlog : num.log2 < 32 := (Nat.log2_lt hpos.ne').mpr hlt
  apply Nat.eq_of_testBit_eq
  intro i
  rw [Nat.testBit_two_pow]
  by_cases hi : num.log2 = i
  · simp [← hi, htop]
  rw [decide_eq_false hi, Bool.eq_false_iff]
  intro hbit
  apply hones
  have hi32 : i < 32 := by
    by_contra hge
    have := Nat.ge_two_pow_of_testBit hbit
    have hpow : 2 ^ 32 ≤ 2 ^ i := Nat.pow_le_pow_right Nat.two_pos (by omega)
    omega
  -- two different bits of `num` are two elements of the filtered range
  have hsub : [num.log2, i] ⊆ (List.range 32).filter num.testBit := by
    simp [hlog, hi32, htop, hbit]
  have hnodup : [num.log2, i].Nodup := by simp [hi]
  exact (List.subperm_of_subset hnodup hsub).length_le

end Math

end TockKernel

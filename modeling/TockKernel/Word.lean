import Mathlib.Tactic

/-!
# Machine words, rounding and byte ranges

Facts about fixed-width machine words that hold for any program: clearing the
low bits of a word rounds it down to a multiple of a power of two, and a range
of bytes that does not run past the end of the address space is an ordinary
interval of natural numbers.
-/

namespace Word

open BitVec

variable {w : ℕ}

theorem toNat_sub_one {x : BitVec w} (hpos : 0 < x.toNat) : (x - 1#w).toNat = x.toNat - 1 := by
  have hw : w ≠ 0 := by
    rintro rfl
    omega
  have hone : (1#w).toNat = 1 := by
    rw [toNat_ofNat, Nat.mod_eq_of_lt (Nat.one_lt_two_pow hw)]
  rw [toNat_sub_of_le (by rw [le_def, hone]; exact hpos), hone]

theorem and_not_pred_eq_shift (x align : BitVec w) {k : ℕ} (halign : align.toNat = 2 ^ k) :
    x &&& ~~~(align - 1#w) = (x >>> k) <<< k := by
  have hpos : 0 < align.toNat := by rw [halign]; positivity
  ext i hi
  have hmask : (align - 1#w)[i] = decide (i < k) := by
    rw [getElem_eq_testBit_toNat, toNat_sub_one hpos, halign, Nat.testBit_two_pow_sub_one]
  rcases Nat.lt_or_ge i k with hlt | hge
  · simp [hmask, hlt]
  · simp [hmask, hi, Nat.not_lt.mpr hge, Nat.add_sub_cancel' hge]

theorem toNat_and_not_pred (x align : BitVec w) {k : ℕ} (halign : align.toNat = 2 ^ k) :
    (x &&& ~~~(align - 1#w)).toNat = x.toNat - x.toNat % align.toNat := by
  have hmod := Nat.div_add_mod x.toNat (2 ^ k)
  rw [and_not_pred_eq_shift x align halign, toNat_shiftLeft, toNat_ushiftRight, Nat.shiftLeft_eq,
    Nat.shiftRight_eq_div_pow, halign, Nat.mul_comm, Nat.mod_eq_of_lt (by omega)]
  omega

/-! ## Ranges of bytes -/

/-- `size` bytes from `start` on, wrapping around at the end of the address
space. -/
structure Range (w : ℕ) where
  start : BitVec w
  size : BitVec w
  deriving DecidableEq

namespace Range

def Contains (r : Range w) (address : BitVec w) : Prop :=
  address - r.start < r.size

instance (r : Range w) (address : BitVec w) : Decidable (r.Contains address) :=
  inferInstanceAs (Decidable (address - r.start < r.size))

/-- The end of a range as a natural number: past `2 ^ w` if it wraps. -/
def stop (r : Range w) : ℕ :=
  r.start.toNat + r.size.toNat

def Disjoint (r r' : Range w) : Prop :=
  ∀ address, r.Contains address → ¬ r'.Contains address

theorem contains_iff {r : Range w} {address : BitVec w} (hfits : r.stop ≤ 2 ^ w) :
    r.Contains address ↔ r.start.toNat ≤ address.toNat ∧ address.toNat < r.stop := by
  unfold stop at hfits ⊢
  rw [Contains, lt_def, toNat_sub]
  by_cases hlt : address.toNat < r.start.toNat
  · rw [Nat.mod_eq_of_lt (by omega)]
    omega
  rw [show 2 ^ w - r.start.toNat + address.toNat = (address.toNat - r.start.toNat) + 2 ^ w by
      omega, Nat.add_mod_right, Nat.mod_eq_of_lt (by omega)]
  omega

theorem disjoint_of_le {r r' : Range w} (hle : r.stop ≤ r'.start.toNat) (hfits : r'.stop ≤ 2 ^ w) :
    r.Disjoint r' := by
  intro address hlow hhigh
  rw [contains_iff (by omega)] at hlow
  rw [contains_iff hfits] at hhigh
  omega

end Range

/-- Ranges, newest first, that were carved off the top of `[low, high)` one
below the other. -/
structure Stacked (low high : ℕ) (ranges : List (Range w)) : Prop where
  below : ranges.Pairwise fun newer older => newer.stop ≤ older.start.toNat
  bounded : ∀ r ∈ ranges, low ≤ r.start.toNat ∧ r.stop ≤ high

namespace Stacked

variable {low low' high : ℕ} {ranges : List (Range w)}

theorem push (h : Stacked low high ranges) {r : Range w}
    (hlow : low' ≤ low) (hstart : low' ≤ r.start.toNat)
    (hstop : r.stop ≤ low) (hhigh : low ≤ high) : Stacked low' high (r :: ranges) := by
  constructor
  · refine List.pairwise_cons.mpr ⟨?_, h.below⟩
    intro older holder
    exact hstop.trans (h.bounded older holder).1
  · intro r' hr'
    rcases List.mem_cons.mp hr' with rfl | hmem
    · exact ⟨hstart, hstop.trans hhigh⟩
    · exact ⟨hlow.trans (h.bounded r' hmem).1, (h.bounded r' hmem).2⟩

theorem pairwise_disjoint (h : Stacked low high ranges) (hhigh : high ≤ 2 ^ w) :
    ranges.Pairwise Range.Disjoint := by
  refine h.below.imp_of_mem ?_
  intro newer older _ holder hbelow
  exact Range.disjoint_of_le hbelow ((h.bounded older holder).2.trans hhigh)

end Stacked

theorem range_within_iff {start size low high : BitVec w} :
    start + size ≥ start ∧ start ≥ low ∧ start + size ≤ high ↔ low.toNat ≤ start.toNat ∧
        start.toNat + size.toNat ≤ high.toNat := by
  simp only [le_def, toNat_add]
  by_cases hfits : start.toNat + size.toNat < 2 ^ w
  · rw [Nat.mod_eq_of_lt hfits]
    omega
  · rw [Nat.mod_eq_sub_mod (by omega), Nat.mod_eq_of_lt (by omega)]
    omega

section Fields

variable {m n : ℕ}

/-- The register with `x` in the field that starts at bit `offset`. -/
def place (w offset : ℕ) (x : BitVec n) : BitVec w :=
  x.setWidth w <<< offset

theorem extractLsb_place {offset : ℕ} (x : BitVec n) (h : offset + n ≤ w) :
    (place w offset x).extractLsb' offset n = x := by
  apply eq_of_getLsbD_eq
  intro i hi
  rw [getLsbD_extractLsb', place, getLsbD_shiftLeft]
  have hw : offset + i < w := by omega
  simp [hi, hw, show i < w by omega]

theorem extractLsb_place_of_apart {offset offset' : ℕ} (x : BitVec m)
    (h : offset + n ≤ offset' ∨ offset' + m ≤ offset) :
    (place w offset' x).extractLsb' offset n = 0#n := by
  apply eq_of_getLsbD_eq
  intro i hi
  rw [getLsbD_extractLsb', place, getLsbD_shiftLeft, getLsbD_setWidth]
  rcases h with hbelow | habove
  · simp [show offset + i < offset' by omega]
  · rw [getLsbD_of_ge x _ (by omega)]
    simp

end Fields

end Word

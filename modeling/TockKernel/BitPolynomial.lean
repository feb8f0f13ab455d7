import Mathlib

/-!
# Bits as polynomials

A sequence of bits, most significant one first, is a polynomial over the field
of two elements. Words are bits in a row, and a shift register that adds the
generator whenever a one is shifted out computes with remainders.
-/

namespace TockKernel.BitPolynomial

open Polynomial List

noncomputable section

def bit (b : Bool) : ZMod 2 := if b then 1 else 0

theorem bit_injective : Function.Injective bit := by
  decide

theorem bit_xor (a b : Bool) : bit (a ^^ b) = bit a + bit b := by
  revert a b
  decide

def ofBits : List Bool → (ZMod 2)[X]
  | [] => 0
  | b :: bits => C (bit b) * X ^ bits.length + ofBits bits

theorem ofBits_append (bits bits' : List Bool) :
    ofBits (bits ++ bits') = X ^ bits'.length * ofBits bits + ofBits bits' := by
  induction bits with
  | nil => simp [ofBits]
  | cons b bits ih =>
    simp only [cons_append, ofBits, ih, length_append]
    ring

theorem coeff_ofBits (bits : List Bool) (n : ℕ) :
    (ofBits bits).coeff n = bit (bits.reverse.getD n false) := by
  induction bits with
  | nil => simp [ofBits, bit]
  | cons b bits ih =>
    rw [ofBits, coeff_add, ih, coeff_C_mul, coeff_X_pow, reverse_cons]
    rcases lt_trichotomy n bits.length with hlt | rfl | hgt
    · rw [if_neg hlt.ne, getD_append _ _ _ _ (by simpa using hlt)]
      simp
    · rw [getD_append_right _ _ _ _ (by simp)]
      simp [bit]
    rw [if_neg hgt.ne', getD_eq_default _ _ (by simpa using hgt.le),
      getD_eq_default _ _ (by simpa using hgt)]
    simp

theorem degree_ofBits_lt (bits : List Bool) : (ofBits bits).degree < bits.length := by
  rw [degree_lt_iff_coeff_zero]
  intro n hn
  rw [coeff_ofBits, getD_eq_default _ _ (by simpa using hn)]
  rfl

variable {bits' bits : List Bool}

theorem ofBits_injective (hlen : bits.length = bits'.length) (h : ofBits bits = ofBits bits') :
    bits = bits' := by
  apply reverse_injective
  apply ext_getElem (by simpa using hlen)
  intro n hn hn'
  have hcoeff := congrArg (coeff · n) h
  simp only [coeff_ofBits] at hcoeff
  rw [← getD_eq_getElem _ false hn, ← getD_eq_getElem _ false hn']
  exact bit_injective hcoeff

/-! ## Words -/

section

variable {w : ℕ} (v : BitVec w)

def wordBits : List Bool := (List.range w).map v.getMsbD

def toPoly : (ZMod 2)[X] := ofBits (wordBits v)

theorem length_wordBits : (wordBits v).length = w := by
  simp [wordBits]

theorem coeff_toPoly (n : ℕ) : (toPoly v).coeff n = bit (v.getLsbD n) := by
  rw [toPoly, coeff_ofBits]
  by_cases hn : n < w
  · rw [getD_eq_getElem _ _ (by simpa [length_wordBits] using hn)]
    have hback : w - 1 - (w - 1 - n) = n := by omega
    have hin : w - 1 - n < w := by omega
    simp [wordBits, BitVec.getMsbD, hback, hin]
  · rw [getD_eq_default _ _ (by simpa [length_wordBits] using hn),
      BitVec.getLsbD_of_ge _ _ (by omega)]

theorem degree_toPoly_lt : (toPoly v).degree < w := by
  have hdegree := degree_ofBits_lt (wordBits v)
  rwa [length_wordBits] at hdegree

@[simp] theorem toPoly_zero : toPoly (0 : BitVec w) = 0 := by
  ext n
  rw [coeff_toPoly]
  simp [bit]

theorem toPoly_one (hw : 0 < w) : toPoly (1 : BitVec w) = 1 := by
  ext n
  rw [coeff_toPoly, coeff_one]
  simp [bit, hw]

theorem toPoly_setWidth {w' : ℕ} (hw : w ≤ w') : toPoly (v.setWidth w') = toPoly v := by
  ext n
  rw [coeff_toPoly, coeff_toPoly]
  by_cases hn : n < w'
  · simp [hn]
  · simp [BitVec.getLsbD_of_ge v n (by omega)]

@[simp] theorem toPoly_xor (u v : BitVec w) : toPoly (u ^^^ v) = toPoly u + toPoly v := by
  ext n
  rw [coeff_add, coeff_toPoly, coeff_toPoly, coeff_toPoly, BitVec.getLsbD_xor, bit_xor]

theorem toPoly_shift {k : ℕ} (hk : k ≤ w) :
    toPoly (v <<< k) + X ^ w * toPoly (v >>> (w - k)) = X ^ k * toPoly v := by
  ext n
  rw [coeff_add, coeff_X_pow_mul', coeff_X_pow_mul', coeff_toPoly,
    coeff_toPoly, coeff_toPoly, BitVec.getLsbD_shiftLeft, BitVec.getLsbD_ushiftRight]
  by_cases hw : w ≤ n
  · rw [if_pos (hk.trans hw), show w - k + (n - w) = n - k by omega]
    simp [hw, bit]
  by_cases hn : k ≤ n
  · simp [hw, not_lt.mpr hn, not_le.mp hw]
  · simp [hw, hn, bit]

end

/-- Two sequences that differ, but only within `d` bits in a row. -/
def Burst (d : ℕ) (bits bits' : List Bool) : Prop :=
  ∃ before burst burst' after, bits = before ++ burst ++ after ∧
    bits' = before ++ burst' ++ after ∧ burst.length = burst'.length ∧
    burst.length ≤ d ∧ burst ≠ burst'

theorem Burst.length_eq (h : Burst d bits bits') : bits.length = bits'.length := by
  obtain ⟨-, _, _, -, rfl, rfl, hlen, -⟩ := h
  simp [hlen]

theorem Burst.not_dvd {generator : (ZMod 2)[X]} {d : ℕ} (h : Burst d bits bits')
    (hdegree : generator.degree = d) (hconstant : generator.coeff 0 ≠ 0) (k : ℕ) :
    ¬ generator ∣ X ^ k * (ofBits bits - ofBits bits') := by
  obtain ⟨before, burst, burst', after, rfl, rfl, hlen, hshort, hne⟩ := h
  intro hdvd
  have hdifference : X ^ k * (ofBits (before ++ burst ++ after) -
      ofBits (before ++ burst' ++ after)) =
        X ^ (k + after.length) * (ofBits burst - ofBits burst') := by
    simp only [ofBits_append, hlen]
    ring
  have hcoprime : IsCoprime generator (X ^ (k + after.length)) := by
    refine IsCoprime.pow_right ((irreducible_X.coprime_iff_not_dvd.mpr ?_).symm)
    rwa [X_dvd_iff]
  rw [hdifference] at hdvd
  have hzero : ofBits burst - ofBits burst' = 0 := by
    refine eq_zero_of_dvd_of_degree_lt (hcoprime.dvd_of_dvd_mul_left hdvd) ?_
    have hburst := degree_ofBits_lt burst
    have hburst' := degree_ofBits_lt burst'
    rw [← hlen] at hburst'
    rw [hdegree]
    exact ((degree_sub_le _ _).trans_lt (max_lt hburst hburst')).trans_le (by exact_mod_cast hshort)
  exact hne (ofBits_injective hlen (sub_eq_zero.mp hzero))

end

end TockKernel.BitPolynomial

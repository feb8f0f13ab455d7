import Mathlib.Data.BitVec
import TockKernel.AlarmDriver.Earliest

/-!
# Alarms set by userspace

A model of `rearm_u32_left_justified_expiration` of
`capsules/core/src/alarm.rs`, with the conversions of the `Ticks` trait. If the
counter is narrower than the 32 bits that userspace sees, the reference is
rounded down to a tick and `dt` is rounded up, each on its own. The time asked
for is kept if the rounding of `dt` makes up for that of the reference and `dt`,
rounded up, still fits the counter. `process_rearm_or_callback` closes the
file.
-/

namespace TockKernel.AlarmDriver

open List Nat
open BitVec (isLt le_def ofNat toNat_add toNat_setWidth toNat_sub toNat_sub_of_le)
open Nat (cast_mul mod_eq_of_lt mod_lt)

variable {w : ℕ}

/-! ## Ticks -/

def u32Padding (w : ℕ) : ℕ := 32 - w

def intoU32 (ticks : BitVec w) : BitVec 32 := ticks.setWidth 32

def fromU32 (w : ℕ) (value : BitVec 32) : BitVec w := value.setWidth w

def intoU32LeftJustified (ticks : BitVec w) : BitVec 32 :=
  intoU32 ticks <<< u32Padding w

def dtUnshifted (w : ℕ) (dt : BitVec 32) : BitVec 32 :=
  if dt &&& ((1#32 <<< u32Padding w) - 1#32) ≠ 0 then
    (dt >>> u32Padding w) + 1#32
  else
    dt >>> u32Padding w

variable (now : BitVec w)

def rebasedReference (reference : BitVec 32) : BitVec w :=
  if intoU32 now < reference then
    let bit33 := fromU32 w 0xffffffff + fromU32 w 1
    let sub1Upper := now - bit33
    let subLower := sub1Upper - fromU32 w (intoU32 sub1Upper)
    subLower + fromU32 w reference
  else
    let subLower := now - fromU32 w (intoU32 now)
    subLower + fromU32 w reference

def rearmU32LeftJustifiedExpiration
    (referenceU32 : Option (BitVec 32)) (dtU32 : BitVec 32) : Expiration w × BitVec 32 :=
  let referenceUnshifted := referenceU32.map fun reference : BitVec 32 => reference >>> u32Padding w
  let dt := fromU32 w (dtUnshifted w dtU32)
  let newExp : Expiration w :=
    match referenceUnshifted with
    | some reference =>
      if 32 < w then { reference := rebasedReference now reference, dt }
      else { reference := fromU32 w reference, dt }
    | none => { reference := now, dt }
  (newExp, intoU32LeftJustified newExp.stop)

/-! ## The time asked for and the time of the alarm -/

/-- The latest time not after `time` at which the counter had the reference. -/
def Expiration.since (time : ℕ) (e : Expiration w) : ℤ :=
  time - e.elapsed (.ofNat w time)

def Expiration.fires (time : ℕ) (e : Expiration w) : ℤ :=
  e.since time + e.dt.toNat

def unitsPerTick (w : ℕ) : ℕ := 2 ^ u32Padding w

/-- The same for a reference of userspace, in the units of its clock. -/
def referenceTime (w time : ℕ) (reference : BitVec 32) : ℤ :=
  (time * unitsPerTick w : ℕ) - (intoU32LeftJustified (.ofNat w time) - reference).toNat

def InTime (w time : ℕ) (reference dt : BitVec 32) (e : Expiration w) : Prop :=
  referenceTime w time reference + dt.toNat ≤ e.fires time * unitsPerTick w ∧
    e.fires time * unitsPerTick w < referenceTime w time reference + dt.toNat + unitsPerTick w

instance (w time : ℕ) (reference dt : BitVec 32) (e : Expiration w) :
    Decidable (InTime w time reference dt e) :=
  inferInstanceAs (Decidable (_ ∧ _))

/-- The reference is in the tick of `now`, but after its start: it is almost a
whole range of the counter ago. -/
def InTick (reference : BitVec 32) : Prop :=
  0 < reference.toNat % unitsPerTick w ∧ reference.toNat / unitsPerTick w = now.toNat

instance (now : BitVec w) (reference : BitVec 32) : Decidable (InTick now reference) :=
  inferInstanceAs (Decidable (_ ∧ _))

/-- Reference and `dt` are whole ticks, or `dt` is not and the two parts come to
at most one tick. Then `dt`, rounded up, is not the whole range of the
counter, unless the reference is that long ago. -/
def Compensated (reference dt : BitVec 32) : Prop :=
  (reference.toNat % unitsPerTick w = 0 ∧ dt.toNat % unitsPerTick w = 0) ∨
    (0 < dt.toNat % unitsPerTick w ∧ reference.toNat % unitsPerTick w + dt.toNat % unitsPerTick w ≤
        unitsPerTick w ∧ (InTick now reference ↔ dt.toNat / unitsPerTick w + 1 = 2 ^ w))

instance (now : BitVec w) (reference dt : BitVec 32) : Decidable (Compensated now reference dt) :=
  inferInstanceAs (Decidable (_ ∨ _))

/-! ## Rounding -/

section Rounding

variable {range unit a b q D : ℕ}

theorem rounding_iff (ha : a < unit) (hb : b < unit) (hq : q < range)
    (hD : D = (q + if b = 0 then 0 else 1) % range) :
    a + (q * unit + b) ≤ D * unit ∧ D * unit < a + (q * unit + b) + unit ↔
      (a = 0 ∧ b = 0) ∨ (0 < b ∧ a + b ≤ unit ∧ q + 1 ≠ range) := by
  by_cases hzero : b = 0
  · rw [if_pos hzero, add_zero, mod_eq_of_lt hq] at hD
    subst hD hzero
    omega
  rw [if_neg hzero] at hD
  by_cases hwrap : q + 1 = range
  · rw [hwrap, mod_self] at hD
    subst hD
    omega
  rw [mod_eq_of_lt (by omega)] at hD
  subst hD
  have hnext : (q + 1) * unit = q * unit + unit := by ring
  omega

theorem rounding_range_iff (ha : a < unit) (hpos : 0 < a) (hb : b < unit)
    (hq : q < range) (hrange : 2 ≤ range) (hD : D = (q + if b = 0 then 0 else 1) % range) :
    a + (q * unit + b) ≤ (range + D) * unit ∧ (range + D) * unit < a + (q * unit + b) + unit ↔
      0 < b ∧ a + b ≤ unit ∧ q + 1 = range := by
  have hsum : (range + D) * unit = range * unit + D * unit := by ring
  have htwo : 2 * unit ≤ range * unit := mul_le_mul_right unit hrange
  by_cases hzero : b = 0
  · rw [if_pos hzero, add_zero, mod_eq_of_lt hq] at hD
    subst hD hzero
    omega
  rw [if_neg hzero] at hD
  by_cases hwrap : q + 1 = range
  · rw [hwrap, mod_self] at hD
    have hlast : range * unit = q * unit + unit := by
      rw [← hwrap]
      ring
    subst hD
    omega
  rw [mod_eq_of_lt (by omega)] at hD
  subst hD
  have hnext : (q + 1) * unit = q * unit + unit := by ring
  omega

theorem elapsed_units (ha : a < unit) (hn : n < range) (hq : q < range) :
    (range * unit - (q * unit + a) + n * unit) % (range * unit) =
      if 0 < a ∧ q = n then range * unit - a
      else (range - q + n) % range * unit - a := by
  have hqrange : (q + 1) * unit ≤ range * unit := Nat.mul_le_mul_right unit hq
  have hnext : (q + 1) * unit = q * unit + unit := by ring
  rcases lt_trichotomy q n with hlt | rfl | hgt
  · obtain ⟨m, rfl⟩ := Nat.exists_eq_add_of_lt hlt
    have hm : (range - q + (q + m + 1)) % range = m + 1 := by
      have hsum : range - q + (q + m + 1) = m + 1 + range := by omega
      rw [hsum, Nat.add_mod_right, mod_eq_of_lt (by omega)]
    have hmul : (q + m + 1) * unit = q * unit + (m + 1) * unit := by ring
    have hmunit : (m + 1) * unit = m * unit + unit := by ring
    have hsplit : range * unit - (q * unit + a) + (q + m + 1) * unit =
        ((m + 1) * unit - a) + range * unit := by omega
    rw [if_neg (by omega), hm, hsplit, Nat.add_mod_right]
    by_cases hunit : (m + 1) * unit - a < range * unit
    · exact mod_eq_of_lt hunit
    have hlt' : (m + 1) * unit < range * unit := Nat.mul_lt_mul_of_pos_right (by omega) (by omega)
    omega
  · have hsplit : range * unit - (q * unit + a) + q * unit = range * unit - a := by omega
    have hm : (range - q + q) % range = 0 := by
      rw [Nat.sub_add_cancel hq.le, Nat.mod_self]
    rw [hsplit, hm]
    by_cases hpos : 0 < a
    · rw [if_pos ⟨hpos, rfl⟩]
      exact mod_eq_of_lt (by omega)
    · rw [Nat.eq_zero_of_not_pos hpos]
      simp
  · obtain ⟨m, rfl⟩ := Nat.exists_eq_add_of_lt hgt
    have hm : (range - (n + m + 1) + n) % range = range - (m + 1) := by
      have hsum : range - (n + m + 1) + n = range - (m + 1) := by omega
      rw [hsum, mod_eq_of_lt (by omega)]
    have hmul : (n + m + 1) * unit = n * unit + (m + 1) * unit := by ring
    have hsub : (range - (m + 1)) * unit = range * unit - (m + 1) * unit :=
      Nat.sub_mul range (m + 1) unit
    have hmunit : (m + 1) * unit = m * unit + unit := by ring
    rw [if_neg (by omega), hm, hsub]
    have hsplit : range * unit - ((n + m + 1) * unit + a) + n * unit =
        range * unit - (m + 1) * unit - a := by omega
    rw [hsplit]
    exact mod_eq_of_lt (by omega)

theorem elapsed_ticks_pos (hn : n < range) (hq : q < range)
    (hne : q ≠ n) : 0 < (range - q + n) % range := by
  rcases lt_or_gt_of_ne hne with hlt | hgt
  · have hsum : range - q + n = n - q + range := by omega
    rw [hsum, add_mod_right, mod_eq_of_lt (by omega)]
    omega
  · rw [mod_eq_of_lt (by omega)]
    omega

end Rounding

/-! ## Counters of at most 32 bits -/

section Narrow

theorem range_mul_unitsPerTick (h : w ≤ 32) : 2 ^ w * unitsPerTick w = 2 ^ 32 := by
  rw [unitsPerTick, u32Padding, ← pow_add, Nat.add_sub_cancel' h]

theorem unitsPerTick_pos (w : ℕ) : 0 < unitsPerTick w := Nat.two_pow_pos _

theorem u32Padding_lt (h : 0 < w) : u32Padding w < 32 := by
  rw [u32Padding]
  omega

theorem toNat_shiftRight_padding (value : BitVec 32) :
    (value >>> u32Padding w).toNat = value.toNat / unitsPerTick w := by
  rw [BitVec.toNat_ushiftRight, shiftRight_eq_div_pow]
  rfl

theorem toNat_mask (h : 0 < w) : ((1#32 <<< u32Padding w) - 1#32).toNat = unitsPerTick w - 1 := by
  have hlt : unitsPerTick w < 2 ^ 32 := Nat.pow_lt_pow_right (by decide) (u32Padding_lt h)
  have hshift : (1#32 <<< u32Padding w).toNat = unitsPerTick w := by
    rw [BitVec.toNat_shiftLeft, Nat.shiftLeft_eq]
    change 1 * unitsPerTick w % 2 ^ 32 = _
    rw [Nat.one_mul, mod_eq_of_lt hlt]
  have hle : 1#32 ≤ 1#32 <<< u32Padding w := by
    rw [le_def, hshift]
    exact unitsPerTick_pos w
  rw [toNat_sub_of_le hle, hshift]
  rfl

theorem toNat_dtUnshifted (h : 0 < w) (dt : BitVec 32) :
    (dtUnshifted w dt).toNat = dt.toNat / unitsPerTick w +
      if dt.toNat % unitsPerTick w = 0 then 0 else 1 := by
  have hand : (dt &&& ((1#32 <<< u32Padding w) - 1#32)).toNat = dt.toNat % unitsPerTick w := by
    rw [BitVec.toNat_and, toNat_mask h]
    exact and_two_pow_sub_one_eq_mod _ _
  have hzero : dt &&& ((1#32 <<< u32Padding w) - 1#32) = 0 ↔ dt.toNat % unitsPerTick w = 0 := by
    rw [← hand]
    exact BitVec.toNat_eq
  unfold dtUnshifted
  by_cases hpart : dt.toNat % unitsPerTick w = 0
  · rw [if_neg (not_not.mpr (hzero.mpr hpart)), if_pos hpart, toNat_shiftRight_padding, add_zero]
  have htwo : 2 ≤ unitsPerTick w := by
    by_contra hunit
    have hone : unitsPerTick w = 1 := by
      have hpos := unitsPerTick_pos w
      omega
    rw [hone] at hpart
    exact hpart (mod_one _)
  have hhalf : dt.toNat / unitsPerTick w ≤ dt.toNat / 2 := div_le_div_left htwo (by decide)
  rw [if_pos (mt hzero.mp hpart), if_neg hpart, toNat_add, toNat_shiftRight_padding]
  exact mod_eq_of_lt (by
    change _ + 1 < _
    omega)

theorem toNat_intoU32LeftJustified (h : w ≤ 32) (ticks : BitVec w) :
    (intoU32LeftJustified ticks).toNat = ticks.toNat * unitsPerTick w := by
  have hlt : ticks.toNat * unitsPerTick w < 2 ^ 32 := by
    rw [← range_mul_unitsPerTick h]
    exact Nat.mul_lt_mul_of_pos_right ticks.isLt (unitsPerTick_pos w)
  have hsmall : ticks.toNat < 2 ^ 32 :=
    lt_of_lt_of_le ticks.isLt (Nat.pow_le_pow_right (by decide) h)
  rw [intoU32LeftJustified, BitVec.toNat_shiftLeft, intoU32,
    toNat_setWidth, mod_eq_of_lt hsmall, Nat.shiftLeft_eq]
  exact mod_eq_of_lt hlt

theorem toNat_div_unitsPerTick_lt (h : w ≤ 32) (value : BitVec 32) :
    value.toNat / unitsPerTick w < 2 ^ w :=
  Nat.div_lt_of_lt_mul (by
    rw [Nat.mul_comm, range_mul_unitsPerTick h]
    exact value.isLt)

def ticksSince (now : BitVec w) (reference : BitVec 32) : ℕ :=
  (2 ^ w - reference.toNat / unitsPerTick w + now.toNat) % 2 ^ w

theorem referenceTime_of_le (h : w ≤ 32) (time : ℕ) (reference : BitVec 32) :
    referenceTime w time reference = time * unitsPerTick w -
      (if InTick (.ofNat w time) reference then
        (2 ^ w * unitsPerTick w : ℕ)
      else
        (ticksSince (.ofNat w time) reference * unitsPerTick w : ℕ)) +
      (reference.toNat % unitsPerTick w : ℕ) := by
  have hunitPos : 0 < unitsPerTick w := unitsPerTick_pos w
  set now := ofNat w time with hnow
  have hpart := mod_lt reference.toNat hunitPos
  have hdiv := toNat_div_unitsPerTick_lt h reference
  have hunits : (intoU32LeftJustified now - reference).toNat =
      (2 ^ w * unitsPerTick w - (reference.toNat / unitsPerTick w *
        unitsPerTick w + reference.toNat % unitsPerTick w) +
        now.toNat * unitsPerTick w) % (2 ^ w * unitsPerTick w) := by
    rw [toNat_sub, toNat_intoU32LeftJustified h, range_mul_unitsPerTick h, Nat.div_add_mod']
  have helapsed : (intoU32LeftJustified now - reference).toNat =
      if InTick now reference then
        2 ^ w * unitsPerTick w - reference.toNat % unitsPerTick w
      else
        ticksSince now reference * unitsPerTick w - reference.toNat % unitsPerTick w :=
    hunits.trans (elapsed_units hpart now.isLt hdiv)
  rw [referenceTime, helapsed]
  by_cases hcorner : InTick now reference
  · have hle : unitsPerTick w ≤ 2 ^ w * unitsPerTick w :=
      Nat.le_mul_of_pos_left _ (Nat.two_pow_pos w)
    rw [if_pos hcorner, if_pos hcorner, Nat.cast_sub (by omega)]
    push_cast
    ring
  have hle : reference.toNat % unitsPerTick w ≤ ticksSince now reference * unitsPerTick w := by
    by_cases hzero : reference.toNat % unitsPerTick w = 0
    · rw [hzero]
      exact Nat.zero_le _
    have hticks : 0 < ticksSince now reference := elapsed_ticks_pos now.isLt hdiv fun heq =>
        hcorner ⟨Nat.pos_of_ne_zero hzero, heq⟩
    exact hpart.le.trans (Nat.le_mul_of_pos_left _ hticks)
  rw [if_neg hcorner, if_neg hcorner, Nat.cast_sub hle]
  push_cast
  ring

def dtTicks (w : ℕ) (dt : BitVec 32) : ℕ :=
  (dt.toNat / unitsPerTick w +
    if dt.toNat % unitsPerTick w = 0 then 0 else 1) % 2 ^ w

theorem fires_of_le (hpos : 0 < w) (h : w ≤ 32) (time : ℕ) (reference dt : BitVec 32) :
    (rearmU32LeftJustifiedExpiration (.ofNat w time) (some reference) dt).1.fires time =
      time - (ticksSince (.ofNat w time) reference : ℤ) + dtTicks w dt := by
  have hexpiration : (rearmU32LeftJustifiedExpiration (.ofNat w time)
      (some reference) dt).1 = ⟨fromU32 w (reference >>> u32Padding w),
        fromU32 w (dtUnshifted w dt)⟩ := if_neg (by omega)
  have hkernel : (fromU32 w (reference >>> u32Padding w)).toNat =
      reference.toNat / unitsPerTick w := by
    rw [fromU32, toNat_setWidth, toNat_shiftRight_padding]
    exact mod_eq_of_lt (toNat_div_unitsPerTick_lt h reference)
  have hticks : (ofNat w time - fromU32 w (reference >>> u32Padding w)).toNat =
        ticksSince (.ofNat w time) reference := by
    rw [toNat_sub, hkernel]
    rfl
  have hdt : (fromU32 w (dtUnshifted w dt)).toNat = dtTicks w dt := by
    rw [fromU32, toNat_setWidth, toNat_dtUnshifted hpos]
    rfl
  rw [hexpiration, ← hticks, ← hdt]
  rfl

theorem rearm_inTime_iff_of_le (hpos : 0 < w) (h : w ≤ 32) (time : ℕ) (reference dt : BitVec 32) :
    InTime w time reference dt (rearmU32LeftJustifiedExpiration (.ofNat w time)
        (some reference) dt).1 ↔ Compensated (.ofNat w time) reference dt := by
  have hunitPos : 0 < unitsPerTick w := unitsPerTick_pos w
  have hdt : dt.toNat / unitsPerTick w * unitsPerTick w +
      dt.toNat % unitsPerTick w = dt.toNat := Nat.div_add_mod' _ _
  have hreferencePart := mod_lt reference.toNat hunitPos
  have hdtPart := mod_lt dt.toNat hunitPos
  have hdiv := toNat_div_unitsPerTick_lt h dt
  rw [InTime, fires_of_le hpos h, referenceTime_of_le h, add_mul, sub_mul]
  by_cases hcorner : InTick (.ofNat w time) reference
  · -- the reference is a whole range ago
    have hticks : ticksSince (.ofNat w time) reference = 0 := by
      rw [ticksSince, hcorner.2, Nat.sub_add_cancel (isLt _).le, Nat.mod_self]
    have htwo : 2 ≤ 2 ^ w := by
      calc 2 = 2 ^ 1 := rfl
        _ ≤ 2 ^ w := Nat.pow_le_pow_right (by decide) hpos
    have hround := rounding_range_iff (D := dtTicks w dt) hreferencePart
      hcorner.1 hdtPart hdiv htwo rfl
    have hcompensated : Compensated (.ofNat w time) reference dt ↔
        0 < dt.toNat % unitsPerTick w ∧ reference.toNat % unitsPerTick w +
          dt.toNat % unitsPerTick w ≤ unitsPerTick w ∧ dt.toNat / unitsPerTick w + 1 = 2 ^ w := by
      have hpart := hcorner.1
      simp only [Compensated, hcorner, true_iff]
      omega
    rw [hcompensated, ← hround, if_pos hcorner, hticks, add_mul]
    omega
  · have hround := rounding_iff (D := dtTicks w dt) hreferencePart hdtPart hdiv rfl
    have hcompensated : Compensated (.ofNat w time) reference dt ↔
        (reference.toNat % unitsPerTick w = 0 ∧ dt.toNat % unitsPerTick w = 0) ∨
        (0 < dt.toNat % unitsPerTick w ∧ reference.toNat % unitsPerTick w +
          dt.toNat % unitsPerTick w ≤ unitsPerTick w ∧ dt.toNat / unitsPerTick w + 1 ≠ 2 ^ w) := by
      simp [Compensated, hcorner]
    rw [hcompensated, ← hround, if_neg hcorner]
    omega

end Narrow

/-! ## Wider counters -/

section Wide

section

variable (h : 32 < w)
include h

theorem u32Padding_of_lt : u32Padding w = 0 := Nat.sub_eq_zero_of_le h.le

theorem unitsPerTick_of_lt : unitsPerTick w = 1 := by
  rw [unitsPerTick, u32Padding_of_lt h, pow_zero]

theorem toNat_fromU32_of_lt (value : BitVec 32) : (fromU32 w value).toNat = value.toNat :=
  BitVec.toNat_setWidth_of_le h.le

theorem intoU32_fromU32 (value : BitVec 32) : intoU32 (fromU32 w value) = value := by
  rw [intoU32, fromU32, BitVec.setWidth_setWidth_of_le _ h.le, BitVec.setWidth_eq]

theorem intoU32_sub_bit33 (now : BitVec w) :
    intoU32 (now - (fromU32 w 0xffffffff + fromU32 w 1)) = intoU32 now := by
  set bit33 := fromU32 w 0xffffffff + fromU32 w 1
  have hadd (x y : BitVec w) : intoU32 (x + y) = intoU32 x + intoU32 y :=
    BitVec.setWidth_add x y h.le
  have hlower : intoU32 bit33 = 0#32 := by
    rw [hadd, intoU32_fromU32 h, intoU32_fromU32 h]
    rfl
  have hnow : intoU32 (now - bit33 + bit33) = intoU32 (now - bit33) := by
    rw [hadd, hlower, BitVec.add_zero]
  rw [← hnow, BitVec.sub_add_cancel]

theorem toNat_sub_rebasedReference (now : BitVec w) (reference : BitVec 32) :
    (now - rebasedReference now reference).toNat = (intoU32 now - reference).toNat := by
  unfold rebasedReference
  by_cases hlt : intoU32 now < reference
  · rw [if_pos hlt]
    dsimp only
    rw [intoU32_sub_bit33 h]
    have hsub : now - (now - (fromU32 w 0xffffffff + fromU32 w 1) -
        fromU32 w (intoU32 now) + fromU32 w reference) =
        fromU32 w 0xffffffff + fromU32 w 1 + fromU32 w (intoU32 now) -
          fromU32 w reference := by ring
    have hpow : 2 ^ 33 ≤ 2 ^ w := Nat.pow_le_pow_right (by decide) h
    have hsum : (fromU32 w 0xffffffff + fromU32 w 1 +
        fromU32 w (intoU32 now)).toNat = 2 ^ 32 + (intoU32 now).toNat := by
      have hbit33 : (fromU32 w 0xffffffff + fromU32 w 1).toNat = 2 ^ 32 := by
        rw [toNat_add, toNat_fromU32_of_lt h, toNat_fromU32_of_lt h]
        exact mod_eq_of_lt (lt_of_lt_of_le (by decide) hpow)
      rw [toNat_add, hbit33, toNat_fromU32_of_lt h]
      exact mod_eq_of_lt (by omega)
    have hle : fromU32 w reference ≤ fromU32 w 0xffffffff + fromU32 w 1 +
        fromU32 w (intoU32 now) := by
      rw [le_def, toNat_fromU32_of_lt h]
      omega
    have hlt' : (intoU32 now).toNat < reference.toNat := hlt
    rw [hsub, toNat_sub_of_le hle, toNat_fromU32_of_lt h, toNat_sub]
    omega
  · rw [if_neg hlt]
    have hsub : now - (now - fromU32 w (intoU32 now) + fromU32 w reference) =
        fromU32 w (intoU32 now) - fromU32 w reference := by ring
    have hle : reference ≤ intoU32 now := BitVec.not_lt.mp hlt
    have hle' : fromU32 w reference ≤ fromU32 w (intoU32 now) := by
      rw [le_def, toNat_fromU32_of_lt h, toNat_fromU32_of_lt h]
      exact hle
    rw [hsub, toNat_sub_of_le hle', toNat_sub_of_le hle,
      toNat_fromU32_of_lt h, toNat_fromU32_of_lt h]

theorem elapsed_of_lt (now : BitVec w) (reference dt : BitVec 32) :
    (rearmU32LeftJustifiedExpiration now (some reference) dt).1.elapsed now =
      (intoU32LeftJustified now - reference).toNat := by
  have hreference : reference >>> u32Padding w = reference := by
    rw [u32Padding_of_lt h, BitVec.ushiftRight_zero]
  have hexpiration : (rearmU32LeftJustifiedExpiration now (some reference)
      dt).1.reference = rebasedReference now (reference >>> u32Padding w) :=
    congrArg Expiration.reference (if_pos h)
  rw [Expiration.elapsed, hexpiration, hreference,
    toNat_sub_rebasedReference h, intoU32LeftJustified, u32Padding_of_lt h, BitVec.shiftLeft_zero]

theorem since_of_lt (time : ℕ) (reference dt : BitVec 32) :
    (rearmU32LeftJustifiedExpiration (.ofNat w time) (some reference)
      dt).1.since time = referenceTime w time reference := by
  rw [Expiration.since, elapsed_of_lt h, referenceTime, unitsPerTick_of_lt h, mul_one]

theorem referenceTime_isGreatest (time : ℕ) (reference : BitVec 32) :
    IsGreatest {t : ℤ | t ≤ time ∧ t ≡ reference.toNat [ZMOD 2 ^ 32]}
      (referenceTime w time reference) := by
  have hnow : (intoU32LeftJustified (ofNat w time)).toNat = time % 2 ^ 32 := by
    rw [intoU32LeftJustified, u32Padding_of_lt h, BitVec.shiftLeft_zero,
      intoU32, BitVec.setWidth_ofNat_of_le h.le, BitVec.toNat_ofNat]
  have helapsed : (intoU32LeftJustified (ofNat w time) -
      reference).toNat = (2 ^ 32 - reference.toNat + time % 2 ^ 32) % 2 ^ 32 := by
    rw [toNat_sub, hnow]
  have htime : referenceTime w time reference = (time : ℤ) -
      ((2 ^ 32 - reference.toNat + time % 2 ^ 32) % 2 ^ 32 : ℕ) := by
    rw [referenceTime, helapsed, unitsPerTick_of_lt h, mul_one]
  constructor
  · refine ⟨by omega, ?_⟩
    unfold Int.ModEq
    omega
  · rintro t ⟨hle, hcongruent⟩
    unfold Int.ModEq at hcongruent
    omega

theorem rearm_inTime_of_lt (time : ℕ) (reference dt : BitVec 32) :
    InTime w time reference dt (rearmU32LeftJustifiedExpiration (.ofNat w time)
      (some reference) dt).1 := by
  have hdt : (rearmU32LeftJustifiedExpiration (.ofNat w time) (some reference)
      dt).1.dt.toNat = dt.toNat := by
    have hkept : (rearmU32LeftJustifiedExpiration (.ofNat w time)
        (some reference) dt).1.dt = fromU32 w (dtUnshifted w dt) :=
      congrArg Expiration.dt (if_pos h)
    rw [hkept, toNat_fromU32_of_lt h, toNat_dtUnshifted (by omega),
      unitsPerTick_of_lt h, Nat.mod_one, if_pos rfl, Nat.div_one, Nat.add_zero]
  rw [InTime, Expiration.fires, since_of_lt h, unitsPerTick_of_lt h]
  omega

end

end Wide

/-! ## The time of an alarm -/

/-- The alarm fires in the tick of the time asked for exactly if the roundings make
up for each other. -/
theorem rearm_never_early_iff (hlow : 8 ≤ w) (hhigh : w ≤ 64) (time : ℕ)
    (reference dt : BitVec 32) :
    let e := (rearmU32LeftJustifiedExpiration (BitVec.ofNat w time) (some reference) dt).1
    InTime w time reference dt e ∧ (32 < w →
      IsGreatest {t : ℤ | t ≤ time ∧ t ≡ reference.toNat [ZMOD 2 ^ 32]} (e.since time)) ↔
      Compensated (BitVec.ofNat w time) reference dt := by
  intro e
  by_cases hwide : 32 < w
  · have hgreatest : IsGreatest {t : ℤ | t ≤ time ∧
        t ≡ reference.toNat [ZMOD 2 ^ 32]} (e.since time) := by
      rw [since_of_lt hwide]
      exact referenceTime_isGreatest hwide time reference
    have hwhole : Compensated (.ofNat w time) reference dt := by
      left
      rw [unitsPerTick_of_lt hwide]
      exact ⟨mod_one _, mod_one _⟩
    exact iff_of_true ⟨rearm_inTime_of_lt hwide time reference dt, fun _ => hgreatest⟩ hwhole
  have hnarrow := rearm_inTime_iff_of_le (by omega) (not_lt.mp hwide) time reference dt
  rw [← hnarrow]
  exact and_iff_left fun h => absurd h hwide

/-- On a 24-bit counter a reference and a `dt` that both end in half a tick
give an alarm in time. -/
theorem rearm_never_early_small : InTime 24 10 0x80 0x180 (rearmU32LeftJustifiedExpiration
      (BitVec.ofNat 24 10) (some 0x80) 0x180).1 :=
  ((rearm_never_early_iff (by decide) (by decide) 10 0x80 0x180).mpr (by decide +kernel)).1

/-- A 24-bit counter, whose tick is 256 units of userspace. An alarm one tick
after half a tick is due half a tick early. A `dt` of almost the whole range is
rounded up to it, and the alarm is due at its reference. -/
theorem rearm_early : (rearmU32LeftJustifiedExpiration (BitVec.ofNat 24 10) (some 0x80)
      0x100).1 = ⟨0, 1⟩ ∧ referenceTime 24 10 0x80 = 0x80 ∧
    ¬ InTime 24 10 0x80 0x100 (rearmU32LeftJustifiedExpiration
      (BitVec.ofNat 24 10) (some 0x80) 0x100).1 ∧
    (rearmU32LeftJustifiedExpiration (BitVec.ofNat 24 10) (some 0) 0xffffffff).1 = ⟨0, 0⟩ ∧
    ¬ InTime 24 10 0 0xffffffff (rearmU32LeftJustifiedExpiration
      (BitVec.ofNat 24 10) (some 0) 0xffffffff).1 := by
  decide +kernel

/-! ## Serving the alarms -/

structure AppAlarm (w : ℕ) where
  processId : ℕ
  expiration : Option (Expiration w)

structure AlarmUpcall where
  processId : ℕ
  now : BitVec 32
  expiration : BitVec 32
deriving DecidableEq

inductive AlarmCall (w : ℕ) where
  | disarm
  | setAlarm (reference dt : BitVec w)
deriving DecidableEq

def AppAlarm.item (app : AppAlarm w) : Option (Item w ℕ Unit) :=
  app.expiration.map fun exp =>
    { exp, ud := app.processId, handler := fun _ _ => none }

def resetAlarm (apps : List (AppAlarm w)) (processId : ℕ) : List (AppAlarm w) :=
  apps.map fun app =>
    if app.processId = processId then { app with expiration := none } else app

def expiredUpcall (expired : Expiration w × ℕ) : AlarmUpcall where
  processId := expired.2
  now := intoU32LeftJustified now
  expiration := intoU32 expired.1.stop

/-- The alarms that are left, the upcalls, and what the underlying alarm is
told. There is none if `unreachable!` is reached. -/
def processRearmOrCallback (apps : List (AppAlarm w)) :
    Option (List (AppAlarm w) × List AlarmUpcall × AlarmCall w) :=
  let (result, calls) := earliestAlarm now (apps.filterMap AppAlarm.item)
  let apps := (calls.map Prod.snd).foldl resetAlarm apps
  let upcalls := calls.map (expiredUpcall now)
  match result with
  | .ok none => some (apps, upcalls, .disarm)
  | .ok (some (exp, _)) => some (apps, upcalls, .setAlarm exp.reference exp.dt)
  | .error _ => none

section Serving

variable {now : BitVec w} {apps : List (AppAlarm w)}

def AppAlarm.Over (now : BitVec w) (app : AppAlarm w) : Prop :=
  ∃ exp ∈ app.expiration, ¬ exp.Pending now

theorem foldl_resetAlarm (processIds : List ℕ) :
    processIds.foldl resetAlarm apps = apps.map fun app =>
      if app.processId ∈ processIds then { app with expiration := none }
      else app := by
  induction processIds generalizing apps with
  | nil => simp
  | cons processId processIds ih =>
    rw [foldl_cons, ih, resetAlarm, map_map]
    refine map_congr_left fun app _ => ?_
    by_cases hfirst : app.processId = processId
    · simp [hfirst]
    · simp [hfirst]

theorem item_answer {app : AppAlarm w} {item : Item w ℕ Unit} (h : app.item = some item) :
    app.expiration = some item.exp ∧ item.ud = app.processId ∧ item.answer = none := by
  obtain ⟨_, hexp, rfl⟩ := Option.map_eq_some_iff.mp h
  exact ⟨hexp, rfl, rfl⟩

theorem continues_items : Continues now (apps.filterMap AppAlarm.item) := by
  intro item hitem _
  obtain ⟨_, -, happ⟩ := mem_filterMap.mp hitem
  exact (item_answer happ).2.2

theorem mem_expiredKeys_iff (hnodup : (apps.map AppAlarm.processId).Nodup)
    {app : AppAlarm w} (happ : app ∈ apps) :
    app.processId ∈ (expiredKeys now (apps.filterMap AppAlarm.item)).map
      Prod.snd ↔ app.Over now := by
  have hown : ∀ other ∈ apps, other.processId = app.processId → other = app :=
    fun other hother hid => inj_on_of_nodup_map hnodup hother happ hid
  simp only [expiredKeys, map_map, mem_map, mem_filter, mem_filterMap, decide_eq_true_eq]
  constructor
  · rintro ⟨item, ⟨⟨other, hother, hitem⟩, hover⟩, hid⟩
    obtain ⟨hexp, hud, -⟩ := item_answer hitem
    have hsame : other = app := hown other hother (hud.symm.trans hid)
    exact ⟨item.exp, hsame ▸ hexp, hover⟩
  · rintro ⟨exp, hexp, hover⟩
    exact ⟨_, ⟨⟨app, happ, Option.map_eq_some_iff.mpr ⟨exp, hexp, rfl⟩⟩, hover⟩, rfl⟩

/-- Exactly the alarms whose time has come are reset, each with its upcall. The
underlying alarm is disarmed only if no process had an alarm. -/
theorem processRearmOrCallback_spec (hnodup : (apps.map AppAlarm.processId).Nodup) :
    ∃ apps' upcalls call, processRearmOrCallback now apps = some (apps', upcalls, call) ∧
      Forall₂ (fun app app' =>
        (app.Over now → app' = { app with expiration := none }) ∧
        (¬ app.Over now → app' = app)) apps apps' ∧
      upcalls = (expiredKeys now (apps.filterMap AppAlarm.item)).map (expiredUpcall now) ∧
      (call = .disarm ↔ ∀ app ∈ apps, app.expiration = none) := by
  have hreset : Forall₂ (fun app app' =>
      (app.Over now → app' = { app with expiration := none }) ∧
      (¬ app.Over now → app' = app)) apps
      (((expiredKeys now (apps.filterMap AppAlarm.item)).map Prod.snd).foldl resetAlarm apps) := by
    rw [foldl_resetAlarm, forall₂_map_right_iff, forall₂_same]
    intro app happ
    exact ⟨fun hover => if_pos ((mem_expiredKeys_iff hnodup happ).mpr hover),
      fun hover => if_neg (mt (mem_expiredKeys_iff hnodup happ).mp hover)⟩
  unfold processRearmOrCallback
  rw [earliestAlarm, earliestLoop_of_continues continues_items]
  by_cases hempty : apps.filterMap AppAlarm.item = []
  · have hnone : ∀ app ∈ apps, app.expiration = none := fun app happ =>
      Option.map_eq_none_iff.mp (filterMap_eq_nil_iff.mp hempty app happ)
    refine ⟨_, _, .disarm, ?_, hreset, rfl, iff_of_true rfl hnone⟩
    rw [hempty]
    rfl
  obtain ⟨_, -, hfold⟩ := foldl_keepEarlier now hempty
  rw [hfold]
  refine ⟨_, _, _, rfl, hreset, rfl, iff_of_false (by simp) ?_⟩
  intro hnone
  exact hempty (filterMap_eq_nil_iff.mpr fun app happ =>
    Option.map_eq_none_iff.mpr (hnone app happ))

theorem processRearmOrCallback_two : ∃ apps' upcalls call, processRearmOrCallback (9 : BitVec 16)
    [⟨0, some ⟨1, 2⟩⟩, ⟨1, some ⟨8, 5⟩⟩] = some (apps', upcalls, call) ∧ call ≠ .disarm := by
  obtain ⟨apps', upcalls, call, heq, -, -, hcall⟩ :=
    processRearmOrCallback_spec (show ([⟨0, some ⟨1, 2⟩⟩, ⟨1, some ⟨8, 5⟩⟩] : List
      (AppAlarm 16)).map AppAlarm.processId |>.Nodup by decide)
  exact ⟨apps', upcalls, call, heq, fun h => by simpa using hcall.mp h⟩

end Serving

end TockKernel.AlarmDriver

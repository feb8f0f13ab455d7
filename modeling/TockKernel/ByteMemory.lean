import Mathlib.Tactic

/-!
# Words in byte-addressed memory

A memory is a function from addresses to bytes. A word is stored in four
consecutive bytes, lowest byte first, and a record of two words in eight. What
is read back depends only on those bytes.
-/

namespace ByteMemory

open BitVec

variable {w : ℕ}

abbrev Memory (w : ℕ) := BitVec w → BitVec 8

def readWord (m : Memory w) (a : BitVec w) : BitVec 32 :=
  m (a + 3#w) ++ m (a + 2#w) ++ m (a + 1#w) ++ m (a + 0#w)

def writeWord (m : Memory w) (a : BitVec w) (v : BitVec 32) : Memory w :=
  fun x =>
    if (x - a).toNat < 4 then v.extractLsb' (8 * (x - a).toNat) 8 else m x

def readPair (m : Memory w) (a : BitVec w) : BitVec 32 × BitVec 32 :=
  (readWord m a, readWord m (a + 4#w))

def writePair (m : Memory w) (a : BitVec w) (v : BitVec 32 × BitVec 32) : Memory w :=
  writeWord (writeWord m a v.1) (a + 4#w) v.2

/-- A stretch of `size` bytes, given by their offsets. -/
def writeBytes (m : Memory w) (a size : BitVec w) (bytes : BitVec w → BitVec 8) : Memory w :=
  fun x => if x - a < size then bytes (x - a) else m x

/-- The two memories hold the same bytes at the addresses from `low` up to
`high`. -/
def AgreeOn (m m' : Memory w) (low high : ℕ) : Prop :=
  ∀ x : BitVec w, low ≤ x.toNat → x.toNat < high → m' x = m x

theorem toNat_add_ofNat (a : BitVec w) {i : ℕ} (h : a.toNat + i < 2 ^ w) :
    (a + BitVec.ofNat w i).toNat = a.toNat + i := by
  simp [Nat.mod_eq_of_lt h]

namespace AgreeOn

variable {m m' m'' : Memory w} {low low' high high' : ℕ}

theorem refl (m : Memory w) (low high : ℕ) : AgreeOn m m low high := fun _ _ _ => rfl

section

variable (h : AgreeOn m m' low high)
include h

theorem trans (h' : AgreeOn m' m'' low high) : AgreeOn m m'' low high :=
  fun x hlow hhigh => (h' x hlow hhigh).trans (h x hlow hhigh)

theorem mono (hlow : low ≤ low') (hhigh : high' ≤ high) : AgreeOn m m' low' high' :=
  fun x hx hx' => h x (hlow.trans hx) (hx'.trans_le hhigh)

theorem readWord_eq {a : BitVec w} (hlow : low ≤ a.toNat)
    (hhigh : a.toNat + 4 ≤ high) (hfits : a.toNat + 4 ≤ 2 ^ w) : readWord m' a = readWord m a := by
  have hbyte : ∀ i < 4, m' (a + BitVec.ofNat w i) = m (a + BitVec.ofNat w i) := by
    intro i hi
    have htoNat := toNat_add_ofNat a (i := i) (by omega)
    exact h _ (by omega) (by omega)
  unfold readWord
  rw [hbyte 0 (by omega), hbyte 1 (by omega), hbyte 2 (by omega), hbyte 3 (by omega)]

theorem readPair_eq {a : BitVec w} (hlow : low ≤ a.toNat)
    (hhigh : a.toNat + 8 ≤ high) (hfits : a.toNat + 8 ≤ 2 ^ w) : readPair m' a = readPair m a := by
  have hnext : (a + 4#w).toNat = a.toNat + 4 := toNat_add_ofNat a (by omega)
  unfold readPair
  rw [h.readWord_eq hlow (by omega) (by omega), h.readWord_eq (by omega) (by omega) (by omega)]

end

end AgreeOn

/-! ## Writing -/

variable (m : Memory w) (a : BitVec w) {high low : ℕ}

section

variable (v : BitVec 32) (hfits : a.toNat + 4 ≤ 2 ^ w)
include v hfits

theorem agreeOn_writeWord (happart : high ≤ a.toNat ∨ a.toNat + 4 ≤ low) :
    AgreeOn m (writeWord m a v) low high := by
  intro x hlow hhigh
  refine if_neg (Nat.not_lt.mpr ?_)
  rw [toNat_sub]
  rcases happart with hbelow | habove
  · rw [Nat.mod_eq_of_lt (by omega)]
    omega
  rw [show 2 ^ w - a.toNat + x.toNat = x.toNat - a.toNat + 2 ^ w by omega,
    Nat.add_mod_right, Nat.mod_eq_of_lt (by omega)]
  omega

theorem writeWord_byte (hi : i < 4) :
    writeWord m a v (a + BitVec.ofNat w i) = v.extractLsb' (8 * i) 8 := by
  have hdistance : (a + BitVec.ofNat w i - a).toNat = i := by
    rw [BitVec.add_comm, BitVec.add_sub_cancel, BitVec.toNat_ofNat, Nat.mod_eq_of_lt (by omega)]
  unfold writeWord
  rw [hdistance, if_pos hi]

theorem readWord_writeWord : readWord (writeWord m a v) a = v := by
  unfold readWord
  rw [writeWord_byte m a v hfits (by omega),
    writeWord_byte m a v hfits (by omega), writeWord_byte m a v hfits (by omega),
    writeWord_byte m a v hfits (by omega)]
  -- The four bytes put together again, bit by bit.
  apply eq_of_getLsbD_eq
  intro i hi
  simp only [getLsbD_append]
  split_ifs with h0 h1 h2
  · simp [h0]
  · simp [h1, show 8 * 1 + (i - 8) = i by omega]
  · simp [h2, show 8 * 2 + (i - 8 - 8) = i by omega]
  · simp [show i - 8 - 8 - 8 < 8 by omega, show 8 * 3 + (i - 8 - 8 - 8) = i by omega]

end

theorem agreeOn_writePair (v : BitVec 32 × BitVec 32) (hfits : a.toNat + 8 ≤ 2 ^ w)
    (happart : high ≤ a.toNat ∨ a.toNat + 8 ≤ low) : AgreeOn m (writePair m a v) low high := by
  have hnext : (a + 4#w).toNat = a.toNat + 4 := toNat_add_ofNat a (by omega)
  exact (agreeOn_writeWord m a v.1 (by omega) (by omega)).trans
    (agreeOn_writeWord _ _ v.2 (by omega) (by omega))

theorem readPair_writePair (v : BitVec 32 × BitVec 32)
    (hfits : a.toNat + 8 ≤ 2 ^ w) : readPair (writePair m a v) a = v := by
  have hnext : (a + 4#w).toNat = a.toNat + 4 := toNat_add_ofNat a (by omega)
  have hfirst : AgreeOn (writeWord m a v.1) (writePair m a v) a.toNat (a.toNat + 4) :=
    agreeOn_writeWord _ _ v.2 (by omega) (by omega)
  refine Prod.ext ?_ ?_
  · exact (hfirst.readWord_eq le_rfl le_rfl (by omega)).trans
      (readWord_writeWord m a v.1 (by omega))
  · exact readWord_writeWord _ _ v.2 (by omega)

theorem agreeOn_writeBytes (size : BitVec w) (bytes : BitVec w → BitVec 8)
    (hfits : a.toNat + size.toNat ≤ 2 ^ w) (happart : high ≤ a.toNat ∨ a.toNat + size.toNat ≤ low) :
    AgreeOn m (writeBytes m a size bytes) low high := by
  intro x hlow hhigh
  refine if_neg fun hlt => ?_
  rw [lt_def, toNat_sub] at hlt
  rcases happart with hbelow | habove
  · rw [Nat.mod_eq_of_lt (by omega)] at hlt
    omega
  rw [show 2 ^ w - a.toNat + x.toNat = x.toNat - a.toNat + 2 ^ w by omega,
    Nat.add_mod_right, Nat.mod_eq_of_lt (by omega)] at hlt
  omega

end ByteMemory

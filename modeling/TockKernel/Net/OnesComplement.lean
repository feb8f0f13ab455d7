import Mathlib.Tactic

/-!
# One's complement sums

Sums of 16-bit words whose carries are added back in, and the ways to compute
them from an ordinary sum.
-/

namespace OnesComplement

def add (a b : ℕ) : ℕ :=
  if a + b ≤ 0xffff then a + b else a + b - 0xffff

variable (words : List (BitVec 16))

def wordSum : ℕ := words.foldr (fun w n => add w.toNat n) 0

/-- The ordinary sum. -/
def total : ℕ := (words.map BitVec.toNat).sum

@[simp]
theorem total_cons (w : BitVec 16) (words : List (BitVec 16)) :
    total (w :: words) = w.toNat + total words := rfl

@[simp]
theorem total_append (words words' : List (BitVec 16)) :
    total (words ++ words') = total words + total words' := by
  rw [total, List.map_append, List.sum_append]
  rfl

/-- The one's complement sum of words that add up to `n`. -/
def residue (n : ℕ) : ℕ := if n = 0 then 0 else (n - 1) % 0xffff + 1

theorem residue_of_pos (h : 0 < n) : residue n = (n - 1) % 0xffff + 1 := if_neg (Nat.ne_of_gt h)

theorem residue_le (n : ℕ) : residue n ≤ 0xffff := by
  unfold residue
  split <;> omega

theorem residue_of_le (h : n ≤ 0xffff) : residue n = n := by
  unfold residue
  split <;> omega

theorem add_residue (ha : a ≤ 0xffff) (n : ℕ) : add a (residue n) = residue (a + n) := by
  unfold add residue
  split_ifs <;> omega

theorem wordSum_eq_residue : wordSum words = residue (total words) := by
  induction words with
  | nil => rfl
  | cons w words ih =>
    rw [total_cons, ← add_residue (by omega), ← ih]
    rfl

theorem residue_eq_max_iff (h : 0 < n) : residue n = 0xffff ↔ 0xffff ∣ n := by
  rw [residue_of_pos h]
  omega

/-- The high half is added to the low half until there is none. -/
def fold (n : ℕ) : ℕ :=
  if 0xffff < n then fold (n / 0x10000 + n % 0x10000) else n

theorem fold_eq_residue (n : ℕ) : fold n = residue n := by
  induction n using fold.induct with
  | case1 n hlarge ih =>
    rw [fold, ih]
    unfold residue
    split_ifs <;> omega
  | case2 n hsmall =>
    rw [fold, if_neg hsmall, residue_of_le (by omega)]

end OnesComplement

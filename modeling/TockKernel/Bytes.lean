import TockKernel.Arithmetic
import Mathlib.Tactic

/-!
# Slices of bytes

Checked slicing and little-endian words, as in the standard library.
-/

namespace TockKernel

open List

abbrev Byte := BitVec 8

variable (bytes : List Byte)

/-- `bytes.get(start..stop)`. -/
def slice (start stop : ℕ) : Option (List Byte) :=
  if start ≤ stop ∧ stop ≤ bytes.length then
    some ((bytes.drop start).take (stop - start))
  else
    none

/-- `bytes.get(start..)`. -/
def sliceFrom (start : ℕ) : Option (List Byte) :=
  if start ≤ bytes.length then some (bytes.drop start) else none

theorem slice_eq_some {bytes part : List Byte} {start stop : ℕ}
    (h : slice bytes start stop = some part) :
    start ≤ stop ∧ stop ≤ bytes.length ∧ part.length = stop - start := by
  unfold slice at h
  split at h
  next hrange =>
    obtain rfl := Option.some.inj h
    rw [length_take, length_drop]
    omega
  next => simp at h

theorem sliceFrom_eq_some {bytes part : List Byte} {start : ℕ}
    (h : sliceFrom bytes start = some part) : start ≤ bytes.length ∧ part = bytes.drop start := by
  unfold sliceFrom at h
  split at h
  next hstart => exact ⟨hstart, (Option.some.inj h).symm⟩
  next => simp at h

@[simp]
theorem le16_append (w : BitVec 16) : w.extractLsb' 8 8 ++ w.extractLsb' 0 8 = w := by
  grind

@[simp]
theorem le32_append (w : BitVec 32) :
    w.extractLsb' 24 8 ++ w.extractLsb' 16 8 ++ w.extractLsb' 8 8 ++ w.extractLsb' 0 8 = w := by
  ext i hi
  simp only [BitVec.getElem_append]
  grind

/-! ## Parts of a buffer that are read and replaced -/

/-- `&buf[start..start + len]`, where it is inside the buffer. -/
def part (buf : List Byte) (start len : ℕ) : List Byte :=
  (buf.drop start).take len

/-- `buf[start..start + bytes.len()].copy_from_slice(bytes)`. -/
def copyAt (buf : List Byte) (start : ℕ) (bytes : List Byte) : List Byte :=
  buf.take start ++ bytes ++ buf.drop (start + bytes.length)

section Parts

variable {buf bytes : List Byte} {start len n : ℕ}

theorem length_part (h : start + len ≤ buf.length) : (part buf start len).length = len := by
  rw [part, length_take, length_drop]
  omega

theorem part_eq_drop_take (buf : List Byte) (start len : ℕ) :
    part buf start len = (buf.take (start + len)).drop start := by
  rw [part, drop_take, Nat.add_sub_cancel_left]

theorem length_copyAt (h : start + bytes.length ≤ buf.length) :
    (copyAt buf start bytes).length = buf.length := by
  rw [copyAt, length_append, length_append, length_take, length_drop]
  omega

theorem take_copyAt_of_le (h : n ≤ start) (hstart : start ≤ buf.length) :
    (copyAt buf start bytes).take n = buf.take n := by
  rw [copyAt, append_assoc, take_append_of_le_length, take_take, min_eq_left h]
  rw [length_take]
  omega

theorem take_copyAt_end (hstart : start ≤ buf.length) :
    (copyAt buf start bytes).take (start + bytes.length) = buf.take start ++ bytes := by
  rw [copyAt, take_left']
  rw [length_append, length_take, min_eq_left hstart]

theorem part_copyAt_zero (h : start + len ≤ bytes.length) :
    part (copyAt buf 0 bytes) start len = part bytes start len := by
  rw [part_eq_drop_take, copyAt, take_zero, nil_append,
    take_append_of_le_length h, ← part_eq_drop_take]

theorem part_part {first : ℕ} (h : start + len ≤ n) :
    part (part buf first n) start len = part buf (first + start) len := by
  rw [part, part, part, drop_take, take_take, drop_drop, min_eq_left (by omega)]

theorem part_add (buf : List Byte) (start len n : ℕ) :
    part buf start (len + n) = part buf start len ++ part buf (start + len) n := by
  rw [part, take_add, drop_drop]
  rfl

end Parts

/-- `u16::from_le_bytes` of the two bytes at an offset. -/
def u16At {ε : Type} (offset : ℕ) (error : ε) : Except ε (BitVec 16) :=
  match slice bytes offset (offset + 2) with
  | some [a, b] => .ok (b ++ a)
  | _ => .error error

/-- `u32::from_le_bytes` of the four bytes at an offset. -/
def u32At {ε : Type} (offset : ℕ) (error : ε) : Except ε (BitVec 32) :=
  match slice bytes offset (offset + 4) with
  | some [a, b, c, d] => .ok (d ++ c ++ b ++ a)
  | _ => .error error

section Words

variable {ε : Type} (error : ε) {bytes : List Byte} {start : ℕ}

theorem u32At_of_le (h : start + 4 ≤ bytes.length) :
    ∃ word, u32At bytes start error = .ok word := by
  have hlen : ((bytes.drop start).take (start + 4 - start)).length = 4 := by
    rw [length_take, length_drop]
    omega
  obtain ⟨a, b, c, d, hbytes⟩ := length_eq_four.mp hlen
  refine ⟨d ++ c ++ b ++ a, ?_⟩
  rw [u32At, slice, if_pos ⟨by omega, h⟩, hbytes]

end Words

end TockKernel

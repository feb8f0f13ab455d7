import Mathlib.Tactic

/-!
# The ring buffer of pending tasks

A model of `kernel/src/collections/ring_buffer.rs`, slot by slot, and its
refinement to a list. One slot is kept free to tell a full ring from an empty
one. The loops of the removal operations are written with a bound on the number
of iterations; the refinement theorems show that `len` iterations are always
enough.
-/

namespace TockKernel

open Function List Nat

structure RingBuffer (α : Type) (len : ℕ) where
  ring : Fin len → α
  head : Fin len
  tail : Fin len

namespace RingBuffer

variable {α : Type} {len : ℕ}

/-- The slot `i` places after `slot`, wrapping around at the end of the ring. -/
def advance (slot : Fin len) (i : ℕ) : Fin len :=
  ⟨(slot.val + i) % len, Nat.mod_lt _ slot.pos⟩

/-! ## The operations -/

def new (ring : Fin len → α) (hlen : 0 < len) : RingBuffer α len where
  ring := ring
  head := ⟨0, hlen⟩
  tail := ⟨0, hlen⟩

def hasElements (r : RingBuffer α len) : Bool :=
  r.head != r.tail

def isFull (r : RingBuffer α len) : Bool :=
  r.head == advance r.tail 1

def size (r : RingBuffer α len) : ℕ :=
  if r.head.val < r.tail.val then r.tail.val - r.head.val
  else if r.tail.val < r.head.val then (len - r.head.val) + r.tail.val
  else 0

def enqueue (r : RingBuffer α len) (val : α) : Bool × RingBuffer α len :=
  if r.isFull then
    (false, r)
  else
    (true, { r with
      ring := Function.update r.ring r.tail val
      tail := advance r.tail 1 })

def dequeue (r : RingBuffer α len) : Option α × RingBuffer α len :=
  if r.hasElements then
    (some (r.ring r.head), { r with head := advance r.head 1 })
  else
    (none, r)

/-- Move every element past `slot` one place forward, up to `tail`; returns
the slot behind the last element moved. -/
def shiftForward (tail : Fin len) : ℕ → (Fin len → α) → Fin len → Fin len → (Fin len → α) × Fin len
  | 0, ring, slot, _ => (ring, slot)
  | fuel + 1, ring, slot, nextSlot =>
    if nextSlot = tail then
      (ring, slot)
    else
      shiftForward tail fuel (Function.update ring slot (ring nextSlot))
        nextSlot (advance nextSlot 1)

def removeFrom (f : α → Bool) : ℕ → RingBuffer α len → Fin len → Option α × RingBuffer α len
  | 0, r, _ => (none, r)
  | fuel + 1, r, slot =>
    if slot = r.tail then
      (none, r)
    else if f (r.ring slot) then
      let moved := shiftForward r.tail len r.ring slot (advance slot 1)
      (some (r.ring slot), { r with ring := moved.1, tail := moved.2 })
    else
      removeFrom f fuel r (advance slot 1)

def removeFirstMatching (r : RingBuffer α len) (f : α → Bool) : Option α × RingBuffer α len :=
  removeFrom f len r r.head

def empty (r : RingBuffer α len) : RingBuffer α len :=
  { r with head := ⟨0, r.head.pos⟩, tail := ⟨0, r.head.pos⟩ }

def retainFrom (f : α → Bool) (tail : Fin len) :
    ℕ → (Fin len → α) → Fin len → Fin len → (Fin len → α) × Fin len
  | 0, ring, _, dst => (ring, dst)
  | fuel + 1, ring, src, dst =>
    if src = tail then
      (ring, dst)
    else if f (ring src) then
      retainFrom f tail fuel (if src = dst then ring else Function.update ring dst (ring src))
        (advance src 1) (advance dst 1)
    else
      retainFrom f tail fuel ring (advance src 1) dst

def retain (r : RingBuffer α len) (f : α → Bool) : RingBuffer α len :=
  let kept := retainFrom f r.tail len r.ring r.head r.head
  { r with ring := kept.1, tail := kept.2 }

/-! ## Walking around the ring -/

@[simp]
theorem advance_zero (slot : Fin len) : advance slot 0 = slot := by
  simp [advance, mod_eq_of_lt slot.isLt]

@[simp]
theorem advance_advance (slot : Fin len) (i j : ℕ) :
    advance (advance slot i) j = advance slot (i + j) := by
  simp [advance, add_assoc]

variable {j i k : ℕ}

theorem advance_inj {slot : Fin len} (hi : i < len) (hj : j < len) :
    advance slot i = advance slot j ↔ i = j := by
  constructor
  · intro h
    have hmod : slot.val + i ≡ slot.val + j [MOD len] := congrArg Fin.val h
    exact ModEq.eq_of_lt_of_lt (ModEq.add_left_cancel' _ hmod) hi hj
  · rintro rfl
    rfl

variable (r : RingBuffer α len) (f : α → Bool)

theorem size_lt : r.size < len := by
  unfold size
  split_ifs <;> omega

theorem advance_size : advance r.head r.size = r.tail := by
  have hhead := r.head.isLt
  have htail := r.tail.isLt
  apply Fin.ext
  simp only [advance, size]
  split_ifs with hlt hgt
  · rw [Nat.add_sub_cancel' hlt.le, Nat.mod_eq_of_lt htail]
  · rw [show r.head.val + (len - r.head.val + r.tail.val) =
        r.tail.val + len by omega, Nat.add_mod_right, Nat.mod_eq_of_lt htail]
  · rw [Nat.add_zero, Nat.mod_eq_of_lt hhead]
    omega

theorem size_eq_of_advance {r : RingBuffer α len} (hk : k < len) (h : advance r.head k = r.tail) :
    r.size = k := by
  rw [← advance_size r] at h
  exact ((advance_inj hk r.size_lt).mp h).symm

/-- The `k` elements that start at `slot`. -/
def window (ring : Fin len → α) (slot : Fin len) (k : ℕ) : List α :=
  (List.range k).map fun i => ring (advance slot i)

def toList (r : RingBuffer α len) : List α :=
  window r.ring r.head r.size

section

variable (ring : Fin len → α) (slot : Fin len)
include ring slot

@[simp]
theorem window_zero : window ring slot 0 = [] := rfl

theorem window_succ (k : ℕ) : window ring slot (k + 1) =
      window ring slot k ++ [ring (advance slot k)] := by
  simp [window, range_succ]

theorem window_cons (k : ℕ) : window ring slot (k + 1) =
      ring slot :: window ring (advance slot 1) k := by
  simp [window, range_succ_eq_map, add_comm]

theorem window_update (val : α) (hj : j < len) (hik : i + k ≤ len) (hout : j < i ∨ i + k ≤ j) :
    window (update ring (advance slot j) val) (advance slot i) k =
      window ring (advance slot i) k := by
  apply map_congr_left
  intro n hn
  rw [mem_range] at hn
  rw [update_of_ne]
  rw [advance_advance, ne_eq, advance_inj (by omega) hj]
  omega

theorem window_update_succ (val : α) (hk : k < len) :
    window (update ring (advance slot k) val) slot (k + 1) = window ring slot k ++ [val] := by
  have hbefore := window_update ring slot val hk (i := 0) (k := k) (by omega) (by omega)
  rw [advance_zero] at hbefore
  rw [window_succ, hbefore, update_self]

end

/-! ## Refinement to a list -/

theorem toList_eq_window {r : RingBuffer α len} (hk : k < len) (h : advance r.head k = r.tail) :
    r.toList = window r.ring r.head k := by
  rw [toList, size_eq_of_advance hk h]

@[simp]
theorem length_toList : r.toList.length = r.size := by
  simp [toList, window]

theorem size_eq_zero_iff : r.size = 0 ↔ r.head = r.tail := by
  constructor
  · intro h
    have hadvance := advance_size r
    rwa [h, advance_zero] at hadvance
  · intro h
    exact size_eq_of_advance r.head.pos (by rw [advance_zero, h])

theorem hasElements_iff : r.hasElements ↔ r.toList ≠ [] := by
  rw [← length_pos_iff, length_toList, pos_iff_ne_zero, ne_eq, size_eq_zero_iff]
  simp [hasElements]

theorem isFull_iff : r.isFull ↔ r.size + 1 = len := by
  have hsize := r.size_lt
  rw [isFull, beq_iff_eq, ← advance_size r, advance_advance]
  rcases lt_or_ge (r.size + 1) len with hlt | hge
  · constructor
    · intro h
      have hzero : advance r.head 0 = advance r.head (r.size + 1) := by
        rw [advance_zero]
        exact h
      rw [advance_inj r.head.pos hlt] at hzero
      omega
    · omega
  have heq : r.size + 1 = len := by omega
  simp [advance, heq, mod_eq_of_lt r.head.isLt]

@[simp]
theorem toList_new (ring : Fin len → α) (hlen : 0 < len) : (new ring hlen).toList = [] := by
  simp [new, toList, size]

@[simp]
theorem toList_empty : r.empty.toList = [] := by
  simp [empty, toList, size]

theorem enqueue_fst (val : α) : (r.enqueue val).1 = decide (r.size + 1 < len) := by
  have hsize := r.size_lt
  unfold enqueue
  split_ifs with hfull
  · rw [isFull_iff] at hfull
    simp [hfull]
  rw [isFull_iff] at hfull
  simp only [Bool.true_eq, decide_eq_true_eq]
  omega

theorem toList_enqueue (val : α) : (r.enqueue val).2.toList =
      if r.size + 1 < len then r.toList ++ [val] else r.toList := by
  have hsize := r.size_lt
  unfold enqueue
  split_ifs with hfull hroom hroom
  · rw [isFull_iff] at hfull
    omega
  · rfl
  · rw [toList_eq_window hroom (by simp [← advance_size r]), ← advance_size r]
    exact window_update_succ r.ring r.head val hsize
  · rw [isFull_iff] at hfull
    omega

theorem dequeue_fst : r.dequeue.1 = r.toList.head? := by
  unfold dequeue
  split_ifs with helements
  · rw [hasElements_iff, ← length_pos_iff, length_toList] at helements
    obtain ⟨k, hk⟩ := exists_eq_succ_of_ne_zero helements.ne'
    rw [toList, hk, window_cons]
    rfl
  · rw [hasElements_iff, not_not] at helements
    simp [helements]

theorem toList_dequeue : r.dequeue.2.toList = r.toList.tail := by
  have hsize := r.size_lt
  unfold dequeue
  split_ifs with helements
  · rw [hasElements_iff, ← length_pos_iff, length_toList] at helements
    obtain ⟨k, hk⟩ := exists_eq_succ_of_ne_zero helements.ne'
    rw [toList_eq_window (k := k) (by omega), toList, hk, window_cons, tail_cons]
    rw [← advance_size r, hk]
    simp [add_comm]
  · rw [hasElements_iff, not_not] at helements
    simp [helements]

theorem shiftForward_spec {head tail : Fin len} (hk : k < len) (htail : advance head k = tail)
    (fuel : ℕ) (ring : Fin len → α) (hi : i < k) (hfuel : k ≤ i + 1 + fuel) :
    let moved := shiftForward tail fuel ring (advance head i) (advance head (i + 1))
    moved.2 = advance head (k - 1) ∧ window moved.1 head (k - 1) = window ring head i ++
          window ring (advance head (i + 1)) (k - 1 - i) := by
  induction fuel generalizing ring i with
  | zero =>
    obtain rfl : k = i + 1 := by omega
    simp [shiftForward]
  | succ fuel ih =>
    simp only [shiftForward]
    rcases eq_or_lt_of_le (succ_le_of_lt hi) with heq | hlt
    · subst heq
      simp [htail]
    have hne : ¬ advance head (i + 1) = tail := by
      rw [← htail, advance_inj (by omega) hk]
      omega
    rw [if_neg hne, advance_advance]
    have hnext := ih (update ring (advance head i) (ring (advance head (i + 1)))) hlt (by omega)
    refine ⟨hnext.1, hnext.2.trans ?_⟩
    rw [window_update_succ _ _ _ (by omega), window_update _ _ _ (by omega) (by omega) (by omega),
      show k - 1 - i = (k - 1 - (i + 1)) + 1 by omega, window_cons]
    simp

theorem removeFrom_spec (r : RingBuffer α len) (fuel : ℕ) (hi : i ≤ r.size)
    (hfuel : r.size ≤ i + fuel) :
    let rest := window r.ring (advance r.head i) (r.size - i)
    let removed := removeFrom f fuel r (advance r.head i)
    removed.1 = rest.find? f ∧ removed.2.toList = window r.ring r.head i ++ rest.eraseP f := by
  have hsize := r.size_lt
  induction fuel generalizing i with
  | zero =>
    obtain rfl : i = r.size := by omega
    simp [removeFrom, toList]
  | succ fuel ih =>
    simp only [removeFrom]
    rcases Nat.eq_or_lt_of_le hi with heq | hlt
    · rw [heq, if_pos (advance_size r)]
      simp [toList]
    have hne : ¬ advance r.head i = r.tail := by
      rw [← advance_size r, advance_inj (by omega) hsize]
      omega
    have hrest : window r.ring (advance r.head i) (r.size - i) = r.ring (advance r.head i) ::
          window r.ring (advance r.head (i + 1)) (r.size - (i + 1)) := by
      rw [show r.size - i = (r.size - (i + 1)) + 1 by omega, window_cons, advance_advance]
    rw [if_neg hne, hrest, advance_advance]
    cases hmatch : f (r.ring (advance r.head i)) with
    | true =>
      have hmoved := shiftForward_spec hsize (advance_size r) len r.ring hlt (by omega)
      rw [find?_cons_of_pos hmatch, eraseP_cons_of_pos hmatch]
      rw [toList_eq_window (by omega) hmoved.1.symm]
      simpa [Nat.sub_sub, Nat.add_comm] using hmoved.2
    | false =>
      have hnext := ih (i := i + 1) (by omega) (by omega)
      rw [find?_cons_of_neg (by simp [hmatch]), eraseP_cons_of_neg (by simp [hmatch])]
      refine ⟨hnext.1, hnext.2.trans ?_⟩
      rw [window_succ, append_assoc, singleton_append]

theorem removeFirstMatching_fst : (r.removeFirstMatching f).1 = r.toList.find? f := by
  have hspec := removeFrom_spec f r len (i := 0) (by omega) (by have := r.size_lt; omega)
  rw [advance_zero] at hspec
  exact hspec.1

theorem toList_removeFirstMatching : (r.removeFirstMatching f).2.toList = r.toList.eraseP f := by
  have hspec := removeFrom_spec f r len (i := 0) (by omega) (by have := r.size_lt; omega)
  rw [advance_zero] at hspec
  exact hspec.2

/-- `retain` moves what it keeps to the front, in order. -/
theorem retainFrom_spec {head tail : Fin len} (hk : k < len) (htail : advance head k = tail)
    (fuel : ℕ) (ring : Fin len → α) (hj : j ≤ i) (hi : i ≤ k) (hfuel : k ≤ i + fuel) :
    let kept := retainFrom f tail fuel ring (advance head i) (advance head j)
    ∃ m < len, kept.2 = advance head m ∧ window kept.1 head m = window ring head j ++
          (window ring (advance head i) (k - i)).filter f := by
  induction fuel generalizing ring i j with
  | zero =>
    obtain rfl : i = k := by omega
    exact ⟨j, by omega, rfl, by simp [retainFrom]⟩
  | succ fuel ih =>
    simp only [retainFrom]
    rcases eq_or_lt_of_le hi with heq | hlt
    · subst heq
      rw [if_pos htail]
      exact ⟨j, by omega, rfl, by simp⟩
    have hne : ¬ advance head i = tail := by
      rw [← htail, advance_inj (by omega) hk]
      omega
    have hrest : window ring (advance head i) (k - i) = ring (advance head i) ::
          window ring (advance head (i + 1)) (k - (i + 1)) := by
      rw [show k - i = (k - (i + 1)) + 1 by omega, window_cons, advance_advance]
    rw [if_neg hne, hrest]
    cases hkeep : f (ring (advance head i)) with
    | true =>
      have hwrite : (if advance head i = advance head j then ring
            else update ring (advance head j) (ring (advance head i))) =
            update ring (advance head j) (ring (advance head i)) := by
        split_ifs with hsame
        · rw [hsame, update_eq_self]
        · rfl
      rw [hwrite, advance_advance, advance_advance, filter_cons_of_pos hkeep]
      obtain ⟨m, hm, hdst, hwindow⟩ := ih (update ring (advance head j) (ring (advance head i)))
        (j := j + 1) (by omega) hlt (by omega)
      refine ⟨m, hm, hdst, hwindow.trans ?_⟩
      rw [window_update_succ _ _ _ (by omega), window_update _ _ _ (by omega) (by omega)
        (by omega), append_assoc, singleton_append]
    | false =>
      rw [advance_advance, filter_cons_of_neg (by simp [hkeep])]
      exact ih ring (by omega) hlt (by omega)

theorem toList_retain : (r.retain f).toList = r.toList.filter f := by
  have hsize := r.size_lt
  obtain ⟨m, hm, hdst, hwindow⟩ := retainFrom_spec f hsize (advance_size r)
    len r.ring (i := 0) le_rfl (by omega) (by omega)
  rw [advance_zero] at hdst hwindow
  rw [toList_eq_window hm hdst.symm]
  exact hwindow

end RingBuffer

end TockKernel

import TockKernel.RingBuffer

/-!
# The ring buffer as a bounded queue

The other operations of `kernel/src/collections/ring_buffer.rs`, a queue over
lists that holds at most `capacity` elements, and the refinement of one to the
other over every sequence of operations. A ring with one slot holds nothing;
there `push` still claims to have evicted an element.
-/

namespace TockKernel

open List

/-! ## Bounded queues -/

inductive QueueOp (α : Type) where
  | enqueue (val : α)
  | push (val : α)
  | dequeue
  | removeFirstMatching (f : α → Bool)
  | retain (f : α → Bool)
  | empty

def QueueOp.isPush {α : Type} : QueueOp α → Bool
  | .push _ => true
  | _ => false

inductive QueueResult (α : Type) where
  | added (added : Bool)
  | element (element : Option α)
  | nothing
  deriving DecidableEq, Repr

structure QueueView (α : Type) where
  len : ℕ
  isFull : Bool
  hasElements : Bool
  availableLen : ℕ
  contents : List α
  deriving DecidableEq, Repr

structure QueueModel (α σ : Type) where
  step : σ → QueueOp α → QueueResult α × σ
  view : σ → QueueView α

namespace QueueModel

variable {α σ τ : Type}

def trace (m : QueueModel α σ) : σ → List (QueueOp α) → List (QueueResult α × QueueView α)
  | _, [] => []
  | s, op :: ops => ((m.step s op).1, m.view (m.step s op).2) :: m.trace (m.step s op).2 ops

theorem trace_eq {m : QueueModel α σ} {n : QueueModel α τ} {R : σ → τ → Prop}
    {P : QueueOp α → Prop} (hview : ∀ s t, R s t → m.view s = n.view t)
    (hstep : ∀ s t op, R s t → P op → (m.step s op).1 = (n.step t op).1 ∧
      R (m.step s op).2 (n.step t op).2)
    {s : σ} {t : τ} (h : R s t) {ops : List (QueueOp α)} (hops : ∀ op ∈ ops, P op) :
    m.trace s ops = n.trace t ops := by
  induction ops generalizing s t with
  | nil => rfl
  | cons op ops ih =>
    obtain ⟨hres, hnext⟩ := hstep s t op h (hops op mem_cons_self)
    have hrest := ih hnext fun op' hop' => hops op' (mem_cons_of_mem _ hop')
    rw [trace, trace, hres, hview _ _ hnext, hrest]

end QueueModel

/-- The list that holds at most `capacity` elements, oldest first. -/
def boundedFifo (α : Type) (capacity : ℕ) : QueueModel α (List α) where
  step
    | l, .enqueue val =>
      if l.length < capacity then (.added true, l ++ [val]) else (.added false, l)
    | l, .push val =>
      (.element (if l.length < capacity then none else l.head?),
        (l ++ [val]).drop (l.length + 1 - capacity))
    | l, .dequeue => (.element l.head?, l.tail)
    | l, .removeFirstMatching f => (.element (l.find? f), l.eraseP f)
    | l, .retain f => (.nothing, l.filter f)
    | _, .empty => (.nothing, [])
  view l :=
    { len := l.length
      isFull := decide (l.length = capacity)
      hasElements := !l.isEmpty
      availableLen := capacity - l.length
      contents := l }

namespace RingBuffer

variable {α : Type} {len : ℕ}

/-! ## The other operations -/

def availableLen (r : RingBuffer α len) : ℕ := len - (1 + r.size)

def slice (ring : Fin len → α) (start stop : ℕ) : List α :=
  ((List.ofFn ring).drop start).take (stop - start)

def asSlices (r : RingBuffer α len) : Option (List α) × Option (List α) :=
  if r.head.val < r.tail.val then
    (some (slice r.ring r.head r.tail), none)
  else if r.tail.val < r.head.val then
    (some (slice r.ring r.head len),
      if r.tail.val = 0 then none else some (slice r.ring 0 r.tail))
  else
    (none, none)

def push (r : RingBuffer α len) (val : α) : Option α × RingBuffer α len :=
  let (result, head) :=
    if r.isFull then (some (r.ring r.head), advance r.head 1) else (none, r.head)
  (result, { r with
    head := head
    ring := Function.update r.ring r.tail val
    tail := advance r.tail 1 })

def queue (α : Type) (len : ℕ) : QueueModel α (RingBuffer α len) where
  step
    | r, .enqueue val => ((r.enqueue val).map .added id)
    | r, .push val => (r.push val).map .element id
    | r, .dequeue => r.dequeue.map .element id
    | r, .removeFirstMatching f => (r.removeFirstMatching f).map .element id
    | r, .retain f => (.nothing, r.retain f)
    | r, .empty => (.nothing, r.empty)
  view r :=
    { len := r.size
      isFull := r.isFull
      hasElements := r.hasElements
      availableLen := r.availableLen
      contents := r.asSlices.1.getD [] ++ r.asSlices.2.getD [] }

theorem slice_eq_window (ring : Fin len → α) (slot : Fin len) {k : ℕ} (h : slot.val + k ≤ len) :
    slice ring slot (slot.val + k) = window ring slot k := by
  apply ext_getElem
  · simp [slice, window]
    omega
  · intro i hi hi'
    have hik : i < k := by simpa [window] using hi'
    have hadvance : advance slot i = ⟨slot.val + i, by omega⟩ :=
      Fin.ext (Nat.mod_eq_of_lt (by omega))
    simp [slice, window, hadvance]

theorem window_add (ring : Fin len → α) (slot : Fin len) (j k : ℕ) :
    window ring slot (j + k) = window ring slot j ++ window ring (advance slot j) k := by
  simp [window, range_add]

variable (r : RingBuffer α len) (val : α)

theorem asSlices_eq : r.asSlices.1.getD [] ++ r.asSlices.2.getD [] = r.toList := by
  unfold asSlices
  rcases lt_trichotomy r.head.val r.tail.val with hlt | heq | hgt
  · have hsize : r.size = r.tail.val - r.head.val := if_pos hlt
    have hslice := slice_eq_window r.ring r.head (k := r.size) (by omega)
    rw [show r.head.val + r.size = r.tail.val by omega] at hslice
    rw [if_pos hlt]
    simp [hslice, toList]
  · have hsize : r.size = 0 := by simp [size, heq]
    simp [heq, toList, hsize]
  have hsize : r.size = (len - r.head.val) + r.tail.val := by
    rw [size, if_neg hgt.not_gt, if_pos hgt]
  have hfirst := slice_eq_window r.ring r.head (k := len - r.head.val) (by omega)
  rw [show r.head.val + (len - r.head.val) = len by omega] at hfirst
  have hwrap : advance r.head (len - r.head.val) = ⟨0, r.head.pos⟩ := by
    simp [advance]
  have hsecond := slice_eq_window r.ring ⟨0, r.head.pos⟩ (k := r.tail.val) (by simp)
  rw [Nat.zero_add] at hsecond
  rw [if_neg hgt.not_gt, if_pos hgt, toList, hsize, window_add, hwrap, ← hfirst, ← hsecond]
  split_ifs with hzero
  · simp [hzero, slice]
  · rfl

/-! ## Pushing -/

theorem toList_of_one (r : RingBuffer α 1) : r.toList = [] := by
  have hsize := r.size_lt
  rw [← length_eq_zero_iff, length_toList]
  omega

theorem push_of_full (hfull : r.isFull) (hlen : 2 ≤ len) :
    r.push val = (r.dequeue.1, (r.dequeue.2.enqueue val).2) := by
  have hsize := (isFull_iff r).mp hfull
  have helements : r.hasElements := by
    rw [hasElements_iff, ← length_pos_iff, length_toList]
    omega
  have hroom : ({ r with head := advance r.head 1 } : RingBuffer α len).isFull = false := by
    have hdequeue := toList_dequeue r
    rw [dequeue, if_pos helements] at hdequeue
    dsimp only at hdequeue
    have hlength := congrArg length hdequeue
    rw [length_toList, length_tail, length_toList] at hlength
    rw [← Bool.not_eq_true, isFull_iff]
    omega
  rw [push, dequeue, if_pos helements, if_pos hfull]
  simp [enqueue, hroom]

theorem push_of_room (hfull : r.isFull = false) : r.push val = (none, (r.enqueue val).2) := by
  simp [push, enqueue, hfull]

theorem toList_push :
    (r.push val).2.toList = (r.toList ++ [val]).drop (r.size + 1 - (len - 1)) := by
  have hsize := r.size_lt
  have hlen := length_toList r
  cases hfull : r.isFull with
  | false =>
    have hroom : r.size + 1 < len := by
      rw [← Bool.not_eq_true, isFull_iff] at hfull
      omega
    rw [push_of_room r val hfull, toList_enqueue, if_pos hroom,
      show r.size + 1 - (len - 1) = 0 by omega, drop_zero]
  | true =>
    have hlast := (isFull_iff r).mp hfull
    rcases Nat.lt_or_ge len 2 with hone | hmany
    · obtain rfl : len = 1 := by omega
      rw [toList_of_one, toList_of_one]
      simp
    have hdequeued : r.dequeue.2.size + 1 < len := by
      rw [← length_toList, toList_dequeue, length_tail]
      omega
    have hne : r.toList ≠ [] := by
      rw [← length_pos_iff]
      omega
    rw [push_of_full r val hfull hmany, toList_enqueue, if_pos hdequeued, toList_dequeue, show
      r.size + 1 - (len - 1) = 1 by omega, drop_one, tail_append_of_ne_nil hne]

/-! ## Refinement -/

theorem view_eq : (queue α len).view r = (boundedFifo α (len - 1)).view r.toList := by
  have hsize := r.size_lt
  have hfull : r.isFull = decide (r.size = len - 1) := by
    rw [Bool.eq_iff_iff, isFull_iff, decide_eq_true_iff]
    omega
  have helements : r.hasElements = !r.toList.isEmpty := by
    rw [Bool.eq_iff_iff, hasElements_iff]
    simp
  simp only [queue, boundedFifo, asSlices_eq, length_toList, availableLen]
  congr 1
  omega

theorem push_fst (hlen : 2 ≤ len) :
    (r.push val).1 = if r.size < len - 1 then none else r.toList.head? := by
  have hsize := r.size_lt
  cases hfull : r.isFull with
  | false =>
    rw [← Bool.not_eq_true, isFull_iff] at hfull
    rw [push_of_room r val (by rwa [← Bool.not_eq_true, isFull_iff]), if_pos (by omega)]
  | true =>
    have hlast := (isFull_iff r).mp hfull
    rw [push_of_full r val hfull hlen, dequeue_fst, if_neg (by omega)]

theorem step_eq (op : QueueOp α) (hop : 2 ≤ len ∨ op.isPush = false) :
    ((queue α len).step r op).1 = ((boundedFifo α (len - 1)).step r.toList op).1 ∧
      ((queue α len).step r op).2.toList = ((boundedFifo α (len - 1)).step r.toList op).2 := by
  cases op with
  | enqueue val =>
    have hroom : r.toList.length < len - 1 ↔ r.size + 1 < len := by
      rw [length_toList]
      omega
    simp only [queue, boundedFifo, Prod.map_fst, Prod.map_snd, enqueue_fst,
      id_eq, toList_enqueue, hroom]
    split_ifs with h <;> simp [h]
  | push val =>
    have hlen : 2 ≤ len := hop.resolve_right (by simp [QueueOp.isPush])
    simp [queue, boundedFifo, Prod.map_fst, Prod.map_snd, id_eq,
      length_toList, toList_push, push_fst r val hlen]
  | dequeue => exact ⟨congrArg _ (dequeue_fst r), toList_dequeue r⟩
  | removeFirstMatching f =>
    exact ⟨congrArg _ (removeFirstMatching_fst r f), toList_removeFirstMatching r f⟩
  | retain f => exact ⟨rfl, toList_retain r f⟩
  | empty => exact ⟨rfl, toList_empty r⟩

theorem push_of_one (r : RingBuffer α 1) (val : α) : (r.push val).1 = some (r.ring r.head) := by
  have hsize := r.size_lt
  have hfull : r.isFull := (isFull_iff r).mpr (by omega)
  simp [push, hfull]

theorem trace_ne_of_push {ops : List (QueueOp α)} (r : RingBuffer α 1)
    (hpush : ∃ op ∈ ops, op.isPush) :
    (queue α 1).trace r ops ≠ (boundedFifo α 0).trace r.toList ops := by
  induction ops generalizing r with
  | nil => simp at hpush
  | cons op ops ih =>
    intro htrace
    obtain ⟨hfirst, hrest⟩ := cons.inj htrace
    have hres := congrArg Prod.fst hfirst
    cases hop : op.isPush with
    | false =>
      obtain ⟨-, hnext⟩ := step_eq r op (.inr hop)
      rw [← hnext] at hrest
      refine ih _ ?_ hrest
      obtain ⟨op', hmem, hpush'⟩ := hpush
      rcases mem_cons.mp hmem with rfl | hmem
      · rw [hop] at hpush'
        cases hpush'
      · exact ⟨op', hmem, hpush'⟩
    | true =>
      cases op with
      | push val =>
        simp [queue, boundedFifo, push_of_one, toList_of_one] at hres
      | _ => cases hop

/-- The ring buffer behaves as the bounded queue, unless an element is pushed into
a ring of one slot. -/
theorem trace_eq_boundedFifo_iff (ring : Fin len → α) (hlen : 0 < len) (ops : List (QueueOp α)) :
    (queue α len).trace (new ring hlen) ops = (boundedFifo α (len - 1)).trace [] ops ↔
      2 ≤ len ∨ ∀ op ∈ ops, op.isPush = false := by
  constructor
  · intro htrace
    by_contra hnot
    obtain ⟨-, hpush⟩ := not_or.mp hnot
    obtain rfl : len = 1 := by omega
    refine trace_ne_of_push (new ring hlen) ?_ (htrace.trans ?_)
    · simpa using hpush
    · rw [toList_new]
  · intro hops
    refine QueueModel.trace_eq (R := fun r l => r.toList = l)
      (P := fun op => 2 ≤ len ∨ op.isPush = false) ?_ ?_ (toList_new ring hlen) ?_
    · rintro r _ rfl
      exact view_eq r
    · rintro r _ op rfl hop
      exact step_eq r op hop
    · intro op hop
      exact hops.imp_right fun hnone => hnone op hop

/-- Three slots, wrapped around: the third `push` evicts the first element. -/
theorem trace_eq_boundedFifo_sample : (0 < 3) ∧ (queue ℕ 3).trace (new (fun _ => 0) (by decide))
        [.push 1, .push 2, .push 3, .retain (· != 2), .dequeue] =
      (boundedFifo ℕ 2).trace [] [.push 1, .push 2, .push 3, .retain (· != 2), .dequeue] :=
  ⟨by decide, (trace_eq_boundedFifo_iff (fun _ => 0) (by decide) _).mpr (.inl (by decide))⟩

/-- A ring of one slot that held a seven: nothing was queued, and `push` returns
the seven. -/
theorem push_returns_foreign_element : (new (fun _ : Fin 1 => 7) (by decide)).toList = [] ∧
      ((new (fun _ : Fin 1 => 7) (by decide)).push 1).1 = some 7 ∧
      (queue ℕ 1).trace (new (fun _ => 7) (by decide)) [.push 1] ≠
        (boundedFifo ℕ 0).trace [] [.push 1] := by
  decide

/-- Whatever is pushed, the newest elements are left, as many as fit, in their order. -/
theorem toList_pushes (r : RingBuffer α len) (vals : List α) :
    (vals.foldl (fun r val => (r.push val).2) r).toList =
      (r.toList ++ vals).drop (r.size + vals.length - (len - 1)) := by
  have hsize := r.size_lt
  induction vals generalizing r with
  | nil => simp [show r.size - (len - 1) = 0 by omega]
  | cons val vals ih =>
    have hlen := congrArg length (toList_push r val)
    simp only [length_toList, length_drop, length_append, length_singleton] at hlen
    rw [foldl_cons, ih _ (size_lt _), hlen, toList_push, ← drop_append_of_le_length, drop_drop]
    · congr 1
      · simp
        omega
      · simp
    · simp [length_toList]

end RingBuffer

end TockKernel

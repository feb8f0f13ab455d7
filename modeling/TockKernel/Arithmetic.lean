import Mathlib.Data.Nat.Log
import Mathlib.Tactic

/-!
# Arithmetic of compiled code

The unsigned arithmetic of a compiled program, on naturals below `2 ^ w`.
Outside that range a build with overflow checks stops, and one without them
wraps around; whatever the checking build returns is what the wrapping build
returns.
-/

namespace Arithmetic

open List

/-- How the program was built: with overflow checks or without. -/
inductive Profile where
  | dev
  | release
deriving DecidableEq, Repr

/-- Why arithmetic stopped the program. -/
inductive Trap where
  | overflow
  | divisionByZero
deriving DecidableEq, Repr

def Profile.overflowing (wrapped : ℕ) : Profile → Except Trap ℕ
  | .dev => .error .overflow
  | .release => .ok wrapped

section Operations

variable (w : ℕ) (profile : Profile) (x y : ℕ)

def add : Except Trap ℕ :=
  if x + y < 2 ^ w then .ok (x + y)
  else profile.overflowing ((x + y) % 2 ^ w)

def sub : Except Trap ℕ :=
  if y ≤ x then .ok (x - y)
  else profile.overflowing ((x + 2 ^ w - y) % 2 ^ w)

def mul : Except Trap ℕ :=
  if x * y < 2 ^ w then .ok (x * y)
  else profile.overflowing ((x * y) % 2 ^ w)

def div : Except Trap ℕ :=
  if y = 0 then .error .divisionByZero else .ok (x / y)

def rem : Except Trap ℕ :=
  if y = 0 then .error .divisionByZero else .ok (x % y)

/-- A shift by the word's width or more overflows; without checks the amount
is reduced modulo the width. -/
def shl : Except Trap ℕ :=
  if y < w then .ok ((x <<< y) % 2 ^ w)
  else profile.overflowing ((x <<< (y % w)) % 2 ^ w)

/-- `x` moved up to the next multiple of `y`, unless it is one. -/
def roundUp : Except Trap ℕ := do
  let excess ← rem x y
  if excess = 0 then
    return x
  else
    let gap ← sub w profile y excess
    add w profile x gap

end Operations

section Exact

theorem ok_bind {α β : Type} (value : α) (next : α → Except Trap β) :
    (Except.ok value >>= next) = next value := rfl

theorem of_bind_ok {ε α β : Type} {action : Except ε α} {next : α → Except ε β} {result : β}
    (h : action >>= next = .ok result) : ∃ value, action = .ok value ∧ next value = .ok result := by
  cases haction : action with
  | error error =>
    rw [haction] at h
    cases h
  | ok value =>
    rw [haction] at h
    exact ⟨value, rfl, h⟩

variable {w : ℕ} (profile : Profile) {x y : ℕ}

theorem add_of_lt (h : x + y < 2 ^ w) : add w profile x y = .ok (x + y) := if_pos h

theorem sub_of_le (h : y ≤ x) : sub w profile x y = .ok (x - y) := if_pos h

theorem mul_of_lt (h : x * y < 2 ^ w) : mul w profile x y = .ok (x * y) := if_pos h

theorem div_of_pos (h : 0 < y) : div x y = .ok (x / y) := if_neg h.ne'

theorem rem_of_pos (h : 0 < y) : rem x y = .ok (x % y) := if_neg h.ne'

theorem shl_of_lt (h : y < w) : shl w profile x y = .ok ((x <<< y) % 2 ^ w) := if_pos h

end Exact

section Wrapping

variable {w : ℕ} {x y : ℕ}

theorem add_release : add w .release x y = .ok ((x + y) % 2 ^ w) := by
  unfold add
  split
  · rename_i h
    rw [Nat.mod_eq_of_lt h]
  · rfl

theorem mul_release : mul w .release x y = .ok ((x * y) % 2 ^ w) := by
  unfold mul
  split
  · rename_i h
    rw [Nat.mod_eq_of_lt h]
  · rfl

theorem sub_release (hx : x < 2 ^ w) : sub w .release x y = .ok ((x + 2 ^ w - y) % 2 ^ w) := by
  unfold sub
  split
  · rename_i h
    rw [show x + 2 ^ w - y = x - y + 2 ^ w by omega, Nat.add_mod_right, Nat.mod_eq_of_lt (by omega)]
  · rfl

theorem exists_sub_release : ∃ difference, sub w .release x y = .ok difference := by
  unfold sub
  split <;> exact ⟨_, rfl⟩

end Wrapping

/-! ## Rounding up -/

/-- The least multiple of `unit` that is at least `x`. -/
def alignUp (x unit : ℕ) : ℕ :=
  if x % unit = 0 then x else x + (unit - x % unit)

section AlignUp

variable {x unit : ℕ}

theorem le_alignUp (x unit : ℕ) : x ≤ alignUp x unit := by
  unfold alignUp
  split <;> omega

theorem alignUp_lt (hunit : 0 < unit) : alignUp x unit < x + unit := by
  unfold alignUp
  split <;> omega

theorem dvd_alignUp (hunit : 0 < unit) : unit ∣ alignUp x unit := by
  unfold alignUp
  split
  · exact Nat.dvd_of_mod_eq_zero ‹_›
  have hlt := Nat.mod_lt x hunit
  have hdecomp := Nat.div_add_mod x unit
  refine ⟨x / unit + 1, ?_⟩
  rw [Nat.mul_add]
  omega

theorem alignUp_eq_self (h : unit ∣ x) : alignUp x unit = x := if_pos (Nat.mod_eq_zero_of_dvd h)

theorem alignUp_le_of_dvd (hunit : 0 < unit) (hle : x ≤ y)
    (hdvd : unit ∣ y) : alignUp x unit ≤ y := by
  obtain ⟨k, hk⟩ := dvd_alignUp hunit
  obtain ⟨m, rfl⟩ := hdvd
  have hlt : unit * k < unit * (m + 1) := by
    rw [← hk, Nat.mul_add, Nat.mul_one]
    exact (alignUp_lt hunit).trans_le (Nat.add_le_add_right hle unit)
  rw [hk]
  exact Nat.mul_le_mul_left unit (Nat.lt_succ_iff.mp (Nat.lt_of_mul_lt_mul_left hlt))

theorem alignUp_alignUp {larger : ℕ} (hlarger : 0 < larger) (hdvd : unit ∣ larger) :
    alignUp (alignUp x unit) larger = alignUp x larger := by
  have hunit : 0 < unit := Nat.pos_of_dvd_of_pos hdvd hlarger
  have hmultiple : larger ∣ alignUp x larger := dvd_alignUp hlarger
  apply le_antisymm
  · refine alignUp_le_of_dvd hlarger ?_ hmultiple
    exact alignUp_le_of_dvd hunit (le_alignUp x larger) (Nat.dvd_trans hdvd hmultiple)
  · exact alignUp_le_of_dvd hlarger
      ((le_alignUp x unit).trans (le_alignUp _ larger)) (dvd_alignUp hlarger)

theorem roundUp_of_lt (profile : Profile) (hunit : 0 < unit) (h : alignUp x unit < 2 ^ w) :
    roundUp w profile x unit = .ok (alignUp x unit) := by
  unfold roundUp alignUp at *
  have hrem := Nat.mod_lt x hunit
  rw [rem_of_pos hunit]
  by_cases hzero : x % unit = 0
  · simp only [bind, Except.bind, if_pos hzero]
    rfl
  simp only [bind, Except.bind, if_neg hzero] at h ⊢
  rw [sub_of_le profile hrem.le]
  exact add_of_lt profile h

theorem roundUp_release (hunit : 0 < unit) (hx : x < 2 ^ w) :
    roundUp w .release x unit = .ok (alignUp x unit % 2 ^ w) := by
  unfold roundUp alignUp
  have hrem := Nat.mod_lt x hunit
  rw [rem_of_pos hunit]
  by_cases hzero : x % unit = 0
  · simp only [bind, Except.bind, if_pos hzero, Nat.mod_eq_of_lt hx]
    rfl
  simp only [bind, Except.bind, if_neg hzero]
  rw [sub_of_le .release hrem.le]
  exact add_release

end AlignUp

/-! ## What a checking build has checked -/

section Checked

variable {w x y result : ℕ}

theorem add_dev_eq_ok (h : add w .dev x y = .ok result) : x + y < 2 ^ w ∧ result = x + y := by
  unfold add at h
  split at h
  · cases h
    exact ⟨‹_›, rfl⟩
  · cases h

theorem of_add_dev_bind {next : ℕ → Except Trap β} {b : β}
    (h : add w .dev x y >>= next = .ok b) : x + y < 2 ^ w ∧ next (x + y) = .ok b := by
  obtain ⟨_, hsum, h⟩ := of_bind_ok h
  obtain ⟨hlt, rfl⟩ := add_dev_eq_ok hsum
  exact ⟨hlt, h⟩

theorem sub_dev_eq_ok (h : sub w .dev x y = .ok result) : y ≤ x ∧ result = x - y := by
  unfold sub at h
  split at h
  · cases h
    exact ⟨‹_›, rfl⟩
  · cases h

theorem mul_dev_eq_ok (h : mul w .dev x y = .ok result) : x * y < 2 ^ w ∧ result = x * y := by
  unfold mul at h
  split at h
  · cases h
    exact ⟨‹_›, rfl⟩
  · cases h

theorem rem_eq_ok (h : rem x y = .ok result) : 0 < y ∧ result = x % y := by
  unfold rem at h
  split at h
  · cases h
  · cases h
    exact ⟨Nat.pos_of_ne_zero ‹_›, rfl⟩

theorem roundUp_dev_eq_ok (h : roundUp w .dev x y = .ok result) : result = alignUp x y := by
  obtain ⟨_, hexcess, h⟩ := of_bind_ok h
  obtain ⟨-, rfl⟩ := rem_eq_ok hexcess
  unfold alignUp
  split at h
  · rw [if_pos ‹_›]
    cases h
    rfl
  rw [if_neg ‹_›]
  obtain ⟨_, hgap, h⟩ := of_bind_ok h
  obtain ⟨-, rfl⟩ := sub_dev_eq_ok hgap
  exact (add_dev_eq_ok h).2

variable {α ε : Type} {p : α → Except ε Bool} {list : List α}

theorem exists_anyM_eq_ok_iff (list : List α) : (∃ found, list.anyM p = .ok found) ↔
      ∀ i (hi : i < list.length), (∀ j (hj : j < i), p (list[j]) = .ok false) →
          ∃ found, p (list[i]) = .ok found := by
  induction list with
  | nil => exact ⟨fun _ i hi => absurd hi (Nat.not_lt_zero i), fun _ => ⟨false, rfl⟩⟩
  | cons a rest ih =>
    constructor
    · rintro ⟨found, hfound⟩ i hi hbefore
      obtain ⟨first, hfirst, hrest⟩ := of_bind_ok hfound
      cases i with
      | zero => exact ⟨first, hfirst⟩
      | succ i =>
        have hfalse := hbefore 0 (Nat.succ_pos i)
        rw [getElem_cons_zero, hfirst] at hfalse
        cases hfalse
        exact ih.mp ⟨found, hrest⟩ i (Nat.lt_of_succ_lt_succ hi)
          fun j hj => hbefore (j + 1) (Nat.succ_lt_succ hj)
    · intro h
      obtain ⟨first, hfirst⟩ := h 0 (Nat.succ_pos _) fun j hj =>
        absurd hj (Nat.not_lt_zero j)
      rw [getElem_cons_zero] at hfirst
      rw [anyM, hfirst]
      cases first with
      | true => exact ⟨true, rfl⟩
      | false =>
        apply ih.mpr
        intro i hi hbefore
        apply h (i + 1) (Nat.succ_lt_succ hi)
        intro j hj
        cases j with
        | zero => exact hfirst
        | succ j => exact hbefore j (Nat.lt_of_succ_lt_succ hj)

theorem anyM_eq_ok {found : Bool} (h : list.anyM p = .ok found) :
    (found → ∃ a ∈ list, p a = .ok true) ∧ (found = false → ∀ a ∈ list, p a = .ok false) := by
  induction list with
  | nil =>
    cases h
    exact ⟨nofun, fun _ => forall_mem_nil _⟩
  | cons a rest ih =>
    obtain ⟨first, hfirst, hrest⟩ := of_bind_ok h
    cases first with
    | true =>
      cases hrest
      exact ⟨fun _ => ⟨a, mem_cons_self, hfirst⟩, nofun⟩
    | false =>
      obtain ⟨htrue, hfalse⟩ := ih hrest
      constructor
      · intro hfound
        obtain ⟨b, hb, hpb⟩ := htrue hfound
        exact ⟨b, mem_cons_of_mem a hb, hpb⟩
      · intro hfound
        exact forall_mem_cons.mpr ⟨hfirst, hfalse hfound⟩

theorem findM_eq_ok_some {a : α} (h : list.findM? p = .ok (some a)) :
    a ∈ list ∧ p a = .ok true := by
  induction list with
  | nil => cases h
  | cons b rest ih =>
    obtain ⟨first, hfirst, hrest⟩ := of_bind_ok h
    cases first with
    | true =>
      cases hrest
      exact ⟨mem_cons_self, hfirst⟩
    | false =>
      obtain ⟨hmem, ha⟩ := ih hrest
      exact ⟨mem_cons_of_mem b hmem, ha⟩

theorem findM_eq_ok_none (h : list.findM? p = .ok none) : ∀ a ∈ list, p a = .ok false := by
  induction list with
  | nil => exact forall_mem_nil _
  | cons b rest ih =>
    obtain ⟨first, hfirst, hrest⟩ := of_bind_ok h
    cases first with
    | true => cases hrest
    | false => exact forall_mem_cons.mpr ⟨hfirst, ih hrest⟩

end Checked

/-! ## The two builds -/

/-- Whatever `checked` returns, `wrapped` returns. -/
def Refines {α : Type} (checked wrapped : Except Trap α) : Prop :=
  ∀ result, checked = .ok result → wrapped = .ok result

namespace Refines

variable {α β : Type} {w x y : ℕ}

theorem refl (action : Except Trap α) : Refines action action := fun _ h => h

theorem bind {checked wrapped : Except Trap α} {checkedNext wrappedNext : α → Except Trap β}
    (hfirst : Refines checked wrapped)
    (hnext : ∀ value, Refines (checkedNext value) (wrappedNext value)) :
    Refines (checked >>= checkedNext) (wrapped >>= wrappedNext) := by
  intro result h
  cases hchecked : checked with
  | error error =>
    rw [hchecked] at h
    cases h
  | ok value =>
    rw [hchecked] at h
    rw [hfirst value hchecked]
    exact hnext value result h

theorem ite {condition : Prop} [Decidable condition]
    {checked1 checked2 wrapped1 wrapped2 : Except Trap α}
    (h1 : Refines checked1 wrapped1) (h2 : Refines checked2 wrapped2) :
    Refines (if condition then checked1 else checked2)
      (if condition then wrapped1 else wrapped2) := by
  split
  · exact h1
  · exact h2

theorem overflowing (value wrapped : ℕ) {condition : Prop} [Decidable condition] : Refines
      (if condition then .ok value else Profile.dev.overflowing wrapped)
      (if condition then .ok value else Profile.release.overflowing wrapped) :=
  ite (refl _) (fun _ h => by cases h)

theorem add : Refines (add w .dev x y) (add w .release x y) := overflowing _ _

theorem sub : Refines (sub w .dev x y) (sub w .release x y) := overflowing _ _

theorem mul : Refines (mul w .dev x y) (mul w .release x y) := overflowing _ _

theorem shl : Refines (shl w .dev x y) (shl w .release x y) := overflowing _ _

theorem anyM {p q : α → Except Trap Bool} (h : ∀ a, Refines (p a) (q a))
    (list : List α) : Refines (list.anyM p) (list.anyM q) := by
  induction list with
  | nil => exact refl _
  | cons a rest ih =>
    refine .bind (h a) fun found => ?_
    cases found with
    | true => exact refl _
    | false => exact ih

theorem foldlM {step step' : β → α → Except Trap β}
    (h : ∀ b a, Refines (step b a) (step' b a)) (list : List α) (b : β) :
    Refines (list.foldlM step b) (list.foldlM step' b) := by
  induction list generalizing b with
  | nil => exact refl _
  | cons a rest ih => exact .bind (h b a) ih

theorem roundUp : Refines (roundUp w .dev x y) (roundUp w .release x y) :=
  .bind (.refl _) fun _ => .ite (.refl _) (.bind .sub fun _ => .add)

end Refines

end Arithmetic

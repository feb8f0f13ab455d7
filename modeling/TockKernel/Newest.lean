import Mathlib.Tactic

/-!
# The newest of every class

A list is read once, and an element is taken unless a later one of its class
has a higher version or one of its class has been taken before. This takes one
element of every class, and one with the highest version of the class.
-/

namespace TockKernel.Newest

open List

variable {α : Type} (related : α → α → Bool) (version : α → ℕ)

def superseded (a : α) (later : List α) : Bool :=
  later.any fun b => related a b && decide (version a < version b)

def select : List α → List α → List α
  | [], taken => taken
  | a :: later, taken =>
    if superseded related version a later || taken.any (related a) then
      select later taken
    else
      select later (taken ++ [a])

structure Classes (all : List α) : Prop where
  refl : ∀ a ∈ all, related a a = true
  symm : ∀ a ∈ all, ∀ b ∈ all, related a b = true → related b a = true
  trans : ∀ a ∈ all, ∀ b ∈ all, ∀ c ∈ all,
    related a b = true → related b c = true → related a c = true

/-- The elements taken are in different classes, and nothing that is still to
come is newer than what has been taken of its class. -/
structure Taken (all taken later : List α) : Prop where
  sublist : (taken ++ later).Sublist all
  unrelated : taken.Pairwise fun a b => related a b = false
  newest : ∀ a ∈ taken, ∀ b ∈ later, related b a = true → version b ≤ version a

variable {related version} {all taken later : List α} {a : α}

theorem superseded_eq_true : superseded related version a later ↔
      ∃ b ∈ later, related a b ∧ version a < version b := by
  simp [superseded]

theorem Taken.nil (all : List α) : Taken related version all [] all where
  sublist := Sublist.refl all
  unrelated := Pairwise.nil
  newest := by simp

namespace Taken

theorem mem_of_taken (h : Taken related version all taken later) (ha : a ∈ taken) : a ∈ all :=
  h.sublist.subset (mem_append_left later ha)

theorem mem_of_later (h : Taken related version all taken later) (ha : a ∈ later) : a ∈ all :=
  h.sublist.subset (mem_append_right taken ha)

theorem skip (h : Taken related version all taken (a :: later)) :
    Taken related version all taken later where
  sublist := by
    have hskip := (sublist_cons_self a later).append_left taken
    exact hskip.trans h.sublist
  unrelated := h.unrelated
  newest b hb c hc := h.newest b hb c (mem_cons_of_mem a hc)

theorem take (h : Taken related version all taken (a :: later)) (hclasses : Classes related all)
    (hsuperseded : superseded related version a later = false)
    (hnew : taken.any (related a) = false) : Taken related version all (taken ++ [a]) later where
  sublist := by
    rw [append_assoc]
    exact h.sublist
  unrelated := by
    rw [pairwise_append]
    refine ⟨h.unrelated, pairwise_singleton _ a, ?_⟩
    intro b hb c hc
    obtain rfl := mem_singleton.mp hc
    by_contra hrelated
    have hback := hclasses.symm b (h.mem_of_taken hb) c
      (h.mem_of_later (mem_cons_self)) (by simpa using hrelated)
    exact absurd hback (by simpa using any_eq_false.mp hnew b hb)
  newest := by
    intro b hb c hc hrelated
    obtain hb | hb := mem_append.mp hb
    · exact h.newest b hb c (mem_cons_of_mem a hc) hrelated
    obtain rfl := mem_singleton.mp hb
    by_contra hnewer
    have hback := hclasses.symm c (h.mem_of_later (mem_cons_of_mem b hc))
      b (h.mem_of_later mem_cons_self) hrelated
    have := superseded_eq_true.mpr ⟨c, hc, hback, not_le.mp hnewer⟩
    rw [hsuperseded] at this
    cases this

end Taken

theorem mem_select_of_mem (ha : a ∈ taken) : a ∈ select related version later taken := by
  induction later generalizing taken with
  | nil => exact ha
  | cons b later ih =>
    unfold select
    split
    · exact ih ha
    · exact ih (mem_append_left [b] ha)

section

variable (hclasses : Classes related all) (h : Taken related version all taken later)
include hclasses h

theorem mem_all_of_mem_select (ha : a ∈ select related version later taken) : a ∈ all := by
  induction later generalizing taken with
  | nil => exact h.mem_of_taken ha
  | cons b later ih =>
    unfold select at ha
    split at ha
    next => exact ih h.skip ha
    next hskip =>
      obtain ⟨hsuperseded, hnew⟩ := Bool.or_eq_false_iff.mp (Bool.eq_false_of_not_eq_true hskip)
      exact ih (h.take hclasses hsuperseded hnew) ha

theorem select_covers : ∀ a ∈ later, ∃ b ∈ select related version later taken,
      related a b ∧ version a ≤ version b := by
  induction later generalizing taken with
  | nil => simp
  | cons c later ih =>
    intro a ha
    have hc : c ∈ all := h.mem_of_later mem_cons_self
    unfold select
    split
    next hskip =>
      obtain rfl | ha := mem_cons.mp ha
      · obtain hsuperseded | hold := Bool.or_eq_true_iff.mp hskip
        · -- A newer one comes later, and what is taken for that one will do.
          obtain ⟨b, hb, hrelated, hnewer⟩ := superseded_eq_true.mp hsuperseded
          obtain ⟨d, hd, hbd, hversion⟩ := ih h.skip b hb
          refine ⟨d, hd, ?_, by omega⟩
          exact hclasses.trans a hc b (h.skip.mem_of_later hb) d
            (mem_all_of_mem_select hclasses h.skip hd) hrelated hbd
        · obtain ⟨b, hb, hrelated⟩ := any_eq_true.mp hold
          exact ⟨b, mem_select_of_mem hb, hrelated, h.newest b hb a mem_cons_self hrelated⟩
      · exact ih h.skip a ha
    next hskip =>
      obtain ⟨hsuperseded, hnew⟩ := Bool.or_eq_false_iff.mp (Bool.eq_false_of_not_eq_true hskip)
      obtain rfl | ha := mem_cons.mp ha
      · exact ⟨a, mem_select_of_mem (mem_append_right taken
          (mem_singleton_self a)), hclasses.refl a hc, le_refl _⟩
      · exact ih (h.take hclasses hsuperseded hnew) a ha

end

end TockKernel.Newest

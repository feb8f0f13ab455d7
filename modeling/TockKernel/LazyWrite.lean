import Mathlib.Data.List.Nodup

/-!
# Configurations that are written to a device only when needed

A device holds one of several configurations at a time and remembers the
identifier of the one written last. A write can be skipped if the identifier is
the one remembered and the configuration has not changed since: as long as
identifiers differ and every change is noted, the device holds it already.
-/

namespace LazyWrite

open List

structure View (C ι R : Type) where
  id : C → ι
  dirty : C → Bool
  contents : C → R

structure State (C ι H : Type) where
  configs : List C
  last : Option ι
  device : H

variable {C ι R H : Type}

/-- The identifiers differ, and a configuration that is remembered and has not
changed is in the device. -/
structure Coherent (view : View C ι R) (Holds : H → R → Prop) (s : State C ι H) : Prop where
  distinct : (s.configs.map view.id).Nodup
  holds : ∀ c ∈ s.configs, s.last = some (view.id c) → view.dirty c = false →
    Holds s.device (view.contents c)

namespace Coherent

variable {view : View C ι R} {Holds : H → R → Prop} {s : State C ι H}
  {k : ℕ} {c c' : C}

theorem initial (device : H) : Coherent view Holds ⟨[], none, device⟩ where
  distinct := nodup_nil
  holds := forall_mem_nil _

theorem add (h : Coherent view Holds s) (hfresh : ∀ d ∈ s.configs, view.id d ≠ view.id c)
    (hdirty : view.dirty c) : Coherent view Holds { s with configs := s.configs ++ [c] } where
  distinct := by
    rw [map_append]
    apply h.distinct.append (nodup_singleton _)
    rw [disjoint_singleton]
    intro hmem
    obtain ⟨d, hd, heq⟩ := mem_map.mp hmem
    exact hfresh d hd heq
  holds := by
    intro d hd hlast hclean
    rcases mem_append.mp hd with hold | hnew
    · exact h.holds d hold hlast hclean
    · rw [mem_singleton.mp hnew, hdirty] at hclean
      cases hclean

theorem id_ne (h : Coherent view Holds s) (hk : s.configs[k]? = some c)
    {j : ℕ} {d : C} (hj : s.configs[j]? = some d) (hne : j ≠ k) : view.id d ≠ view.id c := by
  intro heq
  apply hne
  obtain ⟨hjlt, -⟩ := List.getElem?_eq_some_iff.mp hj
  have hlt : j < (s.configs.map view.id).length := by
    rwa [List.length_map]
  apply (List.getElem?_inj hlt h.distinct).mp
  rw [List.getElem?_map, List.getElem?_map, hj, hk, Option.map_some, Option.map_some, heq]

theorem map_set (hk : s.configs[k]? = some c) (hid : view.id c' = view.id c) :
    (s.configs.set k c').map view.id = s.configs.map view.id := by
  obtain ⟨hlt, hget⟩ := List.getElem?_eq_some_iff.mp hk
  rw [List.map_set, hid, ← hget]
  apply List.ext_getElem?
  intro j
  rw [List.getElem?_set]
  by_cases hj : k = j
  · subst hj
    simp [hlt]
  · rw [if_neg hj]

theorem mem_set_cases {d : C} (hd : d ∈ s.configs.set k c') :
    d = c' ∨ ∃ j, j ≠ k ∧ s.configs[j]? = some d := by
  obtain ⟨j, hj⟩ := mem_iff_getElem?.mp hd
  rw [getElem?_set] at hj
  by_cases heq : k = j
  · rw [if_pos heq] at hj
    split at hj
    · exact .inl (Option.some.inj hj).symm
    · cases hj
  · rw [if_neg heq] at hj
    exact .inr ⟨j, Ne.symm heq, hj⟩

section

variable (h : Coherent view Holds s) (hk : s.configs[k]? = some c) (hid : view.id c' = view.id c)
include h hk hid

theorem change (hchange : c' = c ∨ view.dirty c') :
    Coherent view Holds { s with configs := s.configs.set k c' } where
  distinct := by
    rw [map_set hk hid]
    exact h.distinct
  holds := by
    intro d hd hlast hclean
    rcases mem_set_cases hd with rfl | ⟨j, -, hj⟩
    · rcases hchange with rfl | hdirty
      · exact h.holds d (mem_of_getElem? hk) hlast hclean
      · rw [hdirty] at hclean
        cases hclean
    · exact h.holds d (mem_of_getElem? hj) hlast hclean

theorem write {device : H} (hholds : Holds device (view.contents c')) :
    Coherent view Holds ⟨s.configs.set k c', some (view.id c), device⟩ where
  distinct := by
    rw [map_set hk hid]
    exact h.distinct
  holds := by
    intro d hd hlast _
    rcases mem_set_cases hd with rfl | ⟨j, hne, hj⟩
    · exact hholds
    · exact absurd (Option.some.inj hlast).symm (h.id_ne hk hj hne)

end

theorem operate (h : Coherent view Holds s) {device : H}
    (hkeeps : ∀ contents, Holds s.device contents → Holds device contents) :
    Coherent view Holds { s with device := device } where
  distinct := h.distinct
  holds := fun d hd hlast hclean => hkeeps _ (h.holds d hd hlast hclean)

end Coherent

end LazyWrite

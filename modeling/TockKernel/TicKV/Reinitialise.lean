import TockKernel.TicKV.Locality

/-!
# Initialising again

`initialise` puts the object of the main key at the start of its home region.
No call moves it, and garbage collection does not erase a region with a live
object, so the search for the main key ends at its first object.
-/

namespace TockKernel.TicKV

open Function

variable {S : ℕ} {t t' t0 blank : TicKV S} {store : ℕ → List Entry}
  {mainKey : BitVec 64}

def Call.Deletes (mainKey : BitVec 64) : Call → Prop
  | .invalidate hash | .zeroise hash => hash = mainKey
  | .append _ _ | .get _ _ => False

/-- The states after any calls that leave the main key alone. -/
inductive ReachableKeeping (mainKey : BitVec 64) (t0 : TicKV S) : TicKV S → Prop where
  | start : ReachableKeeping mainKey t0 t0
  | call {t t' : TicKV S} {c : Call} {answer : Answer}
      (reachable : ReachableKeeping mainKey t0 t) (keeps : ¬ c.Deletes mainKey)
      (returns : t.call c = .ok (answer, t')) : ReachableKeeping mainKey t0 t'
  | garbageCollect {t t' : TicKV S} {result : Except ErrorCode ℕ}
      (reachable : ReachableKeeping mainKey t0 t) (returns : t.garbageCollect = .ok (result, t')) :
      ReachableKeeping mainKey t0 t'

/-- The object of the main key is the first one of its home region. -/
structure AtHome (n : ℕ) (mainKey : BitVec 64) (t : TicKV S) (store : ℕ → List Entry) : Prop where
  regions : t.numRegion = n
  represents : t.Represents store
  first : ∃ rest, store (mainKey.toNat % 0x10000 % n) = .ofValue mainKey [] (by decide) :: rest

theorem first_moves {c : Call} {store' : ℕ → List Entry} {home : ℕ}
    {first : Entry} {rest : List Entry} (h : c.Moves t store store')
    (hkeeps : ¬ c.Deletes mainKey) (hfirst : store home = first :: rest)
    (hhash : first.hash = mainKey) : ∃ rest', store' home = first :: rest' := by
  cases h with
  | same => exact ⟨rest, hfirst⟩
  | append r hvalue =>
    by_cases hhome : home = r
    · subst hhome
      rw [update_self, hfirst]
      exact ⟨_, rfl⟩
    · rw [update_of_ne hhome]
      exact ⟨rest, hfirst⟩
  | @delete hash r before after e e' his hlocated =>
    have hne : hash ≠ mainKey := by
      rcases his with rfl | rfl
      all_goals exact hkeeps
    by_cases hhome : home = r
    · subst hhome
      rw [update_self]
      rw [hlocated.split] at hfirst
      cases before with
      | nil =>
        obtain ⟨rfl, -⟩ := List.cons.inj hfirst
        exact absurd (hlocated.hash_eq.symm.trans hhash) hne
      | cons other before =>
        obtain ⟨rfl, -⟩ := List.cons.inj hfirst
        exact ⟨_, rfl⟩
    · rw [update_of_ne hhome]
      exact ⟨rest, hfirst⟩

theorem ReachableKeeping.atHome (hn : 0 < n) (hpos : 0 < S)
    (hstart : ∃ store, AtHome n mainKey t0 store) (hreachable : ReachableKeeping mainKey t0 t) :
    ∃ store, AtHome n mainKey t store := by
  induction hreachable with
  | start => exact hstart
  | call reachable hkeeps returns ih =>
    obtain ⟨store, hregions, h, rest, hrest⟩ := ih
    obtain ⟨hsize, store', h', hmoves⟩ := call_yields h (hregions ▸ hn) returns
    refine ⟨store', ?_, h', first_moves hmoves hkeeps hrest rfl⟩
    rw [← hregions, numRegion, numRegion, hsize]
  | garbageCollect reachable returns ih =>
    obtain ⟨store, hregions, h, rest, hrest⟩ := ih
    have hchanged := (garbageCollect_changed h (hregions ▸ hn) hpos returns).2
    refine ⟨_, hchanged.numRegion_eq.trans hregions, hchanged.represents, rest, ?_⟩
    rw [collected]
    simp [hrest, erasable, Entry.ofValue]

theorem AtHome.initialise (h : AtHome n mainKey t store) (hn : 0 < n)
    (hhash : ValidHash mainKey) (hbuffer : t.readBuffer) :
    t.initialise mainKey = .ok (.ok .complete, t) := by
  obtain ⟨hregions, hrepresents, _, hrest⟩ := h
  obtain ⟨_, horder⟩ := t.order_eq_cons mainKey
  have hlookup : lookup S t.numRegion store mainKey = some [] := by
    have hfind : findIn mainKey 0 (store (mainKey.toNat % 0x10000 %
        t.numRegion)) = some (0, .ofValue mainKey [] (by decide)) := by
      rw [hregions, hrest, findIn, if_pos ⟨rfl, rfl⟩]
    simp [lookup, horder, search, hfind, Entry.value_ofValue]
  rw [TicKV.initialise, getKey_eq hrepresents hbuffer (hregions ▸ hn) hhash, hlookup]
  rfl

/-- `initialise` finds the store, and nothing changes. -/
def FindsStore (t : TicKV S) (mainKey : BitVec 64) : Prop :=
  ∃ t', t.initialise mainKey = .ok (.ok .complete, t') ∧ t'.flash = t.flash ∧ ∀ hash buf,
      (t'.getKey hash buf).map Prod.fst = (t.getKey hash buf).map Prod.fst

/-- While the main key is left alone, a store is found again exactly if its buffer is there. -/
theorem reinitialise_iff (hn : 0 < blank.numRegion)
    (hinit : blank.initialise mainKey = .ok (.ok .written, t0))
    (hreachable : ReachableKeeping mainKey t0 t) : FindsStore t mainKey ↔ t.readBuffer = true := by
  obtain ⟨hhash, hS, _, herased, hchanged⟩ := initialise_written hn hinit
  have hhome : ∃ store, AtHome blank.numRegion mainKey t store := by
    refine hreachable.atHome hn (by unfold headerLength at hS; omega) ⟨_,
      hchanged.numRegion_eq.trans herased.numRegion_eq, hchanged.represents, [], update_self ..⟩
  obtain ⟨store, hhome⟩ := hhome
  constructor
  · rintro ⟨_, hfinds, -⟩
    by_contra hbuf
    rw [TicKV.initialise, getKey] at hfinds
    cases hlocate : t.locate mainKey with
    | error abort =>
      rw [hlocate] at hfinds
      cases hfinds
    | ok found => exact hbuf (locate_ok hlocate).2
  · intro hbuf
    exact ⟨t, hhome.initialise hn hhash hbuf, rfl, fun _ _ => rfl⟩

/-- An object has been stored since the store was made. -/
theorem reinitialise_small :
    FindsStore (smallStore.stateAfter (smallStore.call (.append 2 [5]))) 1 := by
  have happend : smallStore.call (.append 2 [5]) = .ok (.changed (.ok .written), _) :=
    eq_stateAfter smallStore (by decide +kernel)
  exact (reinitialise_iff (by decide) smallStore_initialise (.call .start id happend)).mpr
    (by decide +kernel)

/-- Zeroising an object at the end of a region fails and leaves the store
without its read buffer, so that `initialise` panics. -/
theorem reinitialise_panics : ∃ t, ReachableKeeping 1 smallStore t ∧
      t.initialise 1 = .error .panic ∧ ¬ FindsStore t 1 := by
  let full := smallStore.stateAfter (smallStore.call (.append 2 (.replicate 40 5)))
  let lost := full.stateAfter (full.call (.zeroise 2))
  have happend : smallStore.call (.append 2 (.replicate 40 5)) =
      .ok (.changed (.ok .written), full) :=
    eq_stateAfter smallStore (by decide +kernel)
  have hzeroise : full.call (.zeroise 2) = .ok (.changed (.error .regionFull), lost) :=
    eq_stateAfter full (by decide +kernel)
  have hpanic : lost.initialise 1 = .error .panic := by
    have hfst : (lost.initialise 1).map Prod.fst = .error .panic := by
      decide +kernel
    match hres : lost.initialise 1, hfst with
    | .error abort, rfl => rfl
  have hother : ¬ (Call.zeroise 2).Deletes 1 := (by decide : ¬ (2 : BitVec 64) = 1)
  refine ⟨lost, .call (.call .start id happend) hother hzeroise, hpanic, ?_⟩
  rintro ⟨_, hfinds, -⟩
  rw [hpanic] at hfinds
  cases hfinds

end TockKernel.TicKV

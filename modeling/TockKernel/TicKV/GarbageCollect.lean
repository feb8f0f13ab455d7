import TockKernel.TicKV.Map

/-!
# Garbage collection

`garbage_collect` erases the regions that have entries but no live ones. An
erased region stops the search for a key, so a key in a neighbouring region is
lost if a region on the way to it is erased.
-/

namespace TockKernel.TicKV

open List

variable {S : ℕ} {t t' : TicKV S} {store : ℕ → List Entry} {hash : BitVec 64}

/-- The states after any calls, of garbage collection too. -/
inductive Reachable (t0 : TicKV S) : TicKV S → Prop where
  | start : Reachable t0 t0
  | call {t t' : TicKV S} {c : Call} {answer : Answer}
      (reachable : Reachable t0 t) (returns : t.call c = .ok (answer, t')) : Reachable t0 t'
  | garbageCollect {t t' : TicKV S} {result : Except ErrorCode ℕ} (reachable : Reachable t0 t)
      (returns : t.garbageCollect = .ok (result, t')) : Reachable t0 t'

/-- No region that is searched before the key is found is going to be
erased. -/
def Unshadowed (t : TicKV S) (hash : BitVec 64) : Prop :=
  ∀ region offset length, t.locate hash = .ok (.ok (region, offset, length)) →
    ∀ r ∈ (t.order hash).takeWhile (· != region),
      collectScan S (t.readRegion r) (S + 1) 0 false ≠ .erase

/-! ## What is kept by any call -/

/-- What a call does to the entries: nothing, or one is added, or the one it
is about dies. -/
inductive Call.Moves (t : TicKV S) (store : ℕ → List Entry) (c : Call) :
    (ℕ → List Entry) → Prop where
  | same : Moves t store c store
  | append {hash : BitVec 64} {value : List Byte} (r : ℕ)
      (hvalue : Storable value) :
      Moves t store c (Function.update store r (store r ++ [.ofValue hash value hvalue]))
  | delete {hash : BitVec 64} {r : ℕ} {before after : List Entry}
      {e : Entry} (e' : Entry) (is : c = .invalidate hash ∨ c = .zeroise hash)
      (located : Located t store hash r before e after) :
      Moves t store c (Function.update store r (before ++ e' :: after))

/-- The flash holds entries after the call, too. -/
def Call.Yields (t t' : TicKV S) (store : ℕ → List Entry) (c : Call) : Prop :=
  t'.flashSize = t.flashSize ∧ ∃ store', t'.Represents store' ∧ c.Moves t store store'

theorem Represents.yields (h : t.Represents store) (c : Call) : c.Yields t t store :=
  ⟨rfl, store, h, .same⟩

theorem Represents.yields_loseBuffer (h : t.Represents store) (c : Call) :
    c.Yields t t.loseBuffer store :=
  ⟨rfl, store, ⟨h.holds, h.written⟩, .same⟩

theorem Changed.yields {store' : ℕ → List Entry} {c : Call}
    (h : Changed t t' store') (hmoves : c.Moves t store store') : c.Yields t t' store :=
  ⟨h.size, store', h.represents, hmoves⟩

theorem locate_invalid (hhash : ¬ ValidHash hash) : t.locate hash = .error .panic := by
  rw [locate, getRegion, if_pos (not_not.mp hhash)]

theorem getKey_same (h : t.Represents store) (hn : 0 < t.numRegion) {buf : List Byte}
    {result : Except ErrorCode (SuccessCode × ℕ) × List Byte}
    (hget : t.getKey hash buf = .ok (result, t')) : t' = t := by
  cases hlocate : t.locate hash with
  | error abort =>
    rw [getKey, hlocate] at hget
    cases hget
  | ok found =>
    obtain ⟨hhash, hbuf⟩ := locate_ok hlocate
    rw [getKey_eq h hbuf hn hhash] at hget
    cases hget
    rfl

variable {result : Except ErrorCode SuccessCode} {t0 : TicKV S}

theorem invalidateKey_yields (h : t.Represents store) (hn : 0 < t.numRegion)
    (hinvalidate : t.invalidateKey hash = .ok (result, t')) :
    (Call.invalidate hash).Yields t t' store := by
  cases hlocate : t.locate hash with
  | error abort =>
    rw [invalidateKey, hlocate] at hinvalidate
    cases hinvalidate
  | ok found =>
    obtain ⟨hhash, hbuf⟩ := locate_ok hlocate
    rcases invalidateKey_outcome h hbuf hn hhash with
      ⟨-, hres⟩ | ⟨r, _, e, _, _, -, hlocated, hres, hchanged⟩
    · cases hres.symm.trans hinvalidate
      exact h.yields _
    · cases hres.symm.trans hinvalidate
      exact hchanged.yields (.delete _ (.inl rfl) hlocated)

theorem zeroiseKey_yields (h : t.Represents store) (hn : 0 < t.numRegion)
    (hzeroise : t.zeroiseKey hash = .ok (result, t')) : (Call.zeroise hash).Yields t t' store := by
  cases hlocate : t.locate hash with
  | error abort =>
    rw [zeroiseKey, hlocate] at hzeroise
    cases hzeroise
  | ok found =>
    obtain ⟨hhash, hbuf⟩ := locate_ok hlocate
    rcases zeroiseKey_outcome h hbuf hn hhash with
      ⟨-, hres⟩ | ⟨r, _, e, _, -, hlocated, ⟨-, hres⟩ | ⟨-, _, hres, hchanged⟩⟩
    · cases hres.symm.trans hzeroise
      exact h.yields _
    · cases hres.symm.trans hzeroise
      exact h.yields_loseBuffer _
    · cases hres.symm.trans hzeroise
      exact hchanged.yields (.delete _ (.inr rfl) hlocated)

theorem appendKey_too_large {value : List Byte} (hvalue : ¬ Storable value)
    (hcall : t.appendKey hash value = .ok (result, t')) : t' = t := by
  unfold appendKey at hcall
  cases hregion : t.getRegion hash with
  | error abort =>
    rw [hregion] at hcall
    cases hcall
  | ok region =>
    rw [hregion] at hcall
    simp only at hcall
    split_ifs at hcall
    · cases hcall
      rfl
    · omega

theorem appendKey_yields (h : t.Represents store) (hn : 0 < t.numRegion)
    {value : List Byte} (happend : t.appendKey hash value = .ok (result, t')) :
    (Call.append hash value).Yields t t' store := by
  by_cases hvalue : Storable value
  · obtain ⟨hhash, hbuf⟩ := appendKey_ok hvalue happend
    rw [appendKey_eq h hbuf hn hhash hvalue] at happend
    cases hplace : place S store hash (headerLength + value.length)
        (t.order hash) with
    | found | full =>
      rw [hplace] at happend
      cases happend
      exact h.yields _
    | inRegion r =>
      obtain ⟨_, _, horder, -⟩ := place_inRegion hplace
      have hr : r < t.numRegion := order_lt hn (by rw [horder]; simp)
      rw [hplace, appendResult] at happend
      split_ifs at happend with hroom
      · cases happend
        exact h.yields_loseBuffer _
      cases happend
      have hchanged : Changed t _ (Function.update store r
          (store r ++ [.ofValue hash value hvalue])) :=
        h.append hbuf hr hvalue (Nat.not_lt.mp hroom)
      exact hchanged.yields (.append r hvalue)
  · rw [appendKey_too_large hvalue happend]
    exact h.yields _

theorem Result.map_ok {α β : Type} {f : α → β} {b : β} {result : Result S α}
    (h : result.map (fun r => (f r.1, r.2)) = .ok (b, t')) : ∃ a, result = .ok (a, t') := by
  match result, h with
  | .ok (a, _), rfl => exact ⟨a, rfl⟩

theorem call_yields (h : t.Represents store) (hn : 0 < t.numRegion) {c : Call}
    {answer : Answer} (hcall : t.call c = .ok (answer, t')) : c.Yields t t' store := by
  cases c with
  | append hash value =>
    obtain ⟨result, happend⟩ := Result.map_ok hcall
    exact appendKey_yields h hn happend
  | get hash buf =>
    obtain ⟨result, hget⟩ := Result.map_ok hcall
    rw [getKey_same h hn hget]
    exact h.yields _
  | invalidate hash =>
    obtain ⟨result, hinvalidate⟩ := Result.map_ok hcall
    exact invalidateKey_yields h hn hinvalidate
  | zeroise hash =>
    obtain ⟨result, hzeroise⟩ := Result.map_ok hcall
    exact zeroiseKey_yields h hn hzeroise

theorem garbageCollect_changed (h : t.Represents store) (hn : 0 < t.numRegion) (hpos : 0 < S)
    {result : Except ErrorCode ℕ} (hcollect : t.garbageCollect = .ok (result, t')) : t.readBuffer ∧
      Changed t t' (collected store (range t.numRegion)) := by
  have hbuf : t.readBuffer := by
    by_contra hbuf
    rw [Bool.not_eq_true] at hbuf
    rw [garbageCollect, if_neg hpos.ne'] at hcollect
    obtain ⟨n, hn'⟩ := Nat.exists_eq_succ_of_ne_zero hn.ne'
    rw [hn', range_succ_eq_map, collectLoop, garbageCollectRegion, hbuf] at hcollect
    cases hcollect
  obtain ⟨_, _, hres, hchanged⟩ := garbageCollect_outcome h hbuf hpos
  cases hres.symm.trans hcollect
  exact ⟨hbuf, hchanged⟩

theorem Reachable.keeps (h : ∃ store, t0.Represents store)
    (hn : 0 < t0.numRegion) (hpos : 0 < S) (hreachable : Reachable t0 t) :
    t.numRegion = t0.numRegion ∧ ∃ store, t.Represents store := by
  induction hreachable with
  | start => exact ⟨rfl, h⟩
  | call reachable returns ih =>
    obtain ⟨hsize, store, h⟩ := ih
    obtain ⟨hflash, store', h', -⟩ := call_yields h (hsize ▸ hn) returns
    refine ⟨?_, store', h'⟩
    rw [← hsize, numRegion, numRegion, hflash]
  | garbageCollect reachable returns ih =>
    obtain ⟨hsize, store, h⟩ := ih
    have hchanged := (garbageCollect_changed h (hsize ▸ hn) hpos returns).2
    exact ⟨hchanged.numRegion_eq.trans hsize, _, hchanged.represents⟩

theorem Reachable.represents {mainKey : BitVec 64} {blank : TicKV S} (hn : 0 < blank.numRegion)
    (hinit : blank.initialise mainKey = .ok (.ok .written, t0)) (hreachable : Reachable t0 t) :
    0 < t.numRegion ∧ 0 < S ∧ ∃ store, t.Represents store := by
  obtain ⟨-, hS, _, herased, hchanged⟩ := initialise_written hn hinit
  have hpos : 0 < S := by
    unfold headerLength at hS
    omega
  have hn0 : 0 < t0.numRegion := by
    rw [hchanged.numRegion_eq, herased.numRegion_eq]
    exact hn
  obtain ⟨hsize, hstore⟩ := hreachable.keeps ⟨_, hchanged.represents⟩ hn0 hpos
  exact ⟨hsize ▸ hn0, hpos, hstore⟩

/-! ## The search after garbage collection -/

theorem continues_nil : continues S [] = false := by
  simp [continues]

theorem search_of_search_collected {erased regions : List ℕ} {found : ℕ × ℕ × Entry}
    (h : search S (collected store erased) hash regions = some found) :
    search S store hash regions = some found := by
  induction regions with
  | nil => cases h
  | cons r regions ih =>
    rw [search] at h ⊢
    by_cases herased : r ∈ erased ∧ erasable (store r)
    · rw [collected, if_pos herased, continues_nil] at h
      cases h
    rw [collected, if_neg herased] at h
    split at h
    · exact h
    split_ifs at h with hcont
    rw [if_pos hcont]
    exact ih h

theorem erasable_of_findIn {entries : List Entry} {offset : ℕ} {e : Entry}
    (hfound : findIn hash 0 entries = some (offset, e)) : erasable entries = false := by
  obtain ⟨-, -, rfl, -, hlive, -⟩ := findIn_eq_some hfound
  simp [erasable, hlive]

theorem search_collected {erased before after : List ℕ} {r offset : ℕ}
    {e : Entry} (hbefore : ∀ r' ∈ before, findIn hash 0 (store r') = none ∧ continues S (store r'))
    (hfound : findIn hash 0 (store r) = some (offset, e)) (herased : ∀ r' ∈ before, r' ∈ erased) :
    search S (collected store erased) hash (before ++ r :: after) =
      if ∃ r' ∈ before, erasable (store r') then none
      else some (r, offset, e) := by
  induction before with
  | nil =>
    rw [nil_append, search, collected, erasable_of_findIn hfound]
    simp [hfound]
  | cons r' before ih =>
    obtain ⟨hnone, hcont⟩ := hbefore r' mem_cons_self
    rw [cons_append, search]
    by_cases herase : erasable (store r')
    · have hexists : ∃ r'' ∈ r' :: before, erasable (store r'') := ⟨r', mem_cons_self, herase⟩
      rw [collected, if_pos ⟨herased r' mem_cons_self, herase⟩, continues_nil, if_pos hexists]
      rfl
    rw [collected, if_neg fun hboth => herase hboth.2, hnone]
    simp only [if_pos hcont]
    rw [ih (fun r'' hr'' => hbefore r'' (mem_cons_of_mem _ hr''))
      fun r'' hr'' => herased r'' (mem_cons_of_mem _ hr'')]
    simp [herase]

/-! ## What a caller sees -/

theorem readResult_none_ne (buf value : List Byte) :
    readResult buf none ≠ readResult buf (some value) := by
  simp only [readResult]
  split_ifs
  · simp
  · simp

theorem unshadowed_iff (h : t.Represents store)
    (hbuf : t.readBuffer) (hn : 0 < t.numRegion) (hpos : 0 < S) (hhash : ValidHash hash) :
    Unshadowed t hash ↔ search S (collected store (range t.numRegion)) hash
          (t.order hash) = search S store hash (t.order hash) := by
  unfold Unshadowed
  rw [locate_eq h.holds hbuf hn hhash]
  cases hsearch : search S store hash (t.order hash) with
  | none =>
    refine iff_of_true (fun _ _ _ hlocate => nomatch hlocate) ?_
    cases hafter : search S (collected store (range t.numRegion)) hash
        (t.order hash) with
    | none => rfl
    | some found =>
      rw [search_of_search_collected hafter] at hsearch
      cases hsearch
  | some found =>
    obtain ⟨r, offset, e⟩ := found
    obtain ⟨before, _, horder, hfound, hbefore⟩ := search_split hsearch
    have hlt : ∀ r' ∈ before, r' < t.numRegion := fun r' hr' =>
      order_lt hn (by rw [horder]; exact mem_append_left _ hr')
    have hr : r ∉ before := by
      intro hr
      rw [(hbefore r hr).1] at hfound
      cases hfound
    have hscan : ∀ r' ∈ before, (collectScan S (t.readRegion r') (S + 1) 0 false ≠ .erase ↔
          erasable (store r') ≠ true) := by
      intro r' hr'
      rw [(h.holds r' (hlt r' hr')).collectScan_eq hpos]
      split_ifs with herase <;> simp [herase]
    rw [horder, search_collected hbefore hfound fun r' hr' =>
      mem_range.mpr (hlt r' hr')]
    constructor
    · intro hkept
      rw [if_neg]
      rintro ⟨r', hr', herase⟩
      have hnot := hkept r offset e.length rfl r'
      rw [takeWhile_before hr] at hnot
      exact (hscan r' hr').mp (hnot hr') herase
    · intro hsame region offset' length' hlocate r' hr'
      cases hlocate
      rw [takeWhile_before hr] at hr'
      refine (hscan r' hr').mpr fun herase => ?_
      rw [if_pos ⟨r', hr', herase⟩] at hsame
      cases hsame

/-- In any state that can be reached, a key reads the same before and after
garbage collection if and only if no region on the way to it is erased. -/
theorem garbage_collect_preserves_iff {mainKey : BitVec 64}
    {blank t0 : TicKV S} {result : Except ErrorCode ℕ} (hn : 0 < blank.numRegion)
    (hinit : blank.initialise mainKey = .ok (.ok .written, t0)) (hreachable : Reachable t0 t)
    (hcollect : t.garbageCollect = .ok (result, t')) (hash : BitVec 64) (buf : List Byte) :
    (t'.getKey hash buf).map Prod.fst = (t.getKey hash buf).map Prod.fst ↔ Unshadowed t hash := by
  obtain ⟨hn0, hpos, store, h⟩ := hreachable.represents hn hinit
  obtain ⟨hbuf, hcollected⟩ := garbageCollect_changed h hn0 hpos hcollect
  by_cases hhash : ValidHash hash
  · have hn' : 0 < t'.numRegion := by rwa [hcollected.numRegion_eq]
    rw [getKey_eq h hbuf hn0 hhash, getKey_eq hcollected.represents hcollected.buffer hn' hhash,
      hcollected.numRegion_eq, unshadowed_iff h hbuf hn0 hpos hhash, lookup, lookup]
    cases hafter : search S (collected store (range t.numRegion)) hash
        (t.order hash) with
    | some found => rw [search_of_search_collected hafter]; simp [Except.map]
    | none =>
      cases hsearch : search S store hash (t.order hash) with
      | none => simp [Except.map]
      | some found =>
        refine iff_of_false (fun hsame => ?_) (by simp)
        exact readResult_none_ne buf _ (Except.ok.inj hsame)
  · refine iff_of_true ?_ fun _ _ _ hlocate => ?_
    · rw [getKey, getKey, locate_invalid hhash, locate_invalid hhash]
    · rw [locate_invalid hhash] at hlocate
      cases hlocate

/-! ## Small stores -/

/-- Key 4 is in region 1, since its home region had no room for it after
key 2. -/
def spilledStore : TicKV 64 :=
  let t := smallStore.stateAfter (smallStore.call (.append 2 (.replicate 30 5)))
  t.stateAfter (t.call (.append 4 (.replicate 10 7)))

theorem Reachable.stateAfter (h : Reachable t0 t) (c : Call) :
    Reachable t0 (t.stateAfter (t.call c)) := by
  match hcall : t.call c with
  | .ok (answer, t') => exact h.call hcall
  | .error abort => exact h

theorem reachable_spilledStore : Reachable smallStore spilledStore := by
  unfold spilledStore
  exact (Reachable.start.stateAfter _).stateAfter _

theorem garbage_collect_preserves_small : ∃ t', spilledStore.garbageCollect = .ok (.ok 0, t') ∧
      (t'.getKey 4 []).map Prod.fst = (spilledStore.getKey 4 []).map Prod.fst := by
  have hcollect : spilledStore.garbageCollect =
      .ok (.ok 0, spilledStore.stateAfter spilledStore.garbageCollect) :=
    eq_stateAfter spilledStore (by decide +kernel)
  have hlocate : spilledStore.locate 4 = .ok (.ok (1, 15, 25)) := by
    decide +kernel
  refine ⟨_, hcollect, (garbage_collect_preserves_iff (by decide)
    smallStore_initialise reachable_spilledStore hcollect 4 []).mpr ?_⟩
  intro region offset length hlocate'
  cases hlocate.symm.trans hlocate'
  decide +kernel

/-- The home region of key 4 is erased once key 2 has been invalidated, and
key 4 is lost. -/
theorem garbage_collect_loses_key :
    let t := spilledStore.stateAfter (spilledStore.call (.invalidate 2))
    Reachable smallStore t ∧ (t.getKey 4 (.replicate 10 0)).map Prod.fst =
        .ok (.ok (.complete, 10), .replicate 10 7) ∧ ∃ t', t.garbageCollect = .ok (.ok 64, t') ∧
        (t'.getKey 4 (.replicate 10 0)).map Prod.fst =
          .ok (.error .keyNotFound, .replicate 10 0) := by
  refine ⟨reachable_spilledStore.stateAfter _, by decide +kernel, _,
    eq_stateAfter spilledStore (by decide +kernel), by decide +kernel⟩

end TockKernel.TicKV

import TockKernel.TicKV.Store

/-!
# TicKV as a map

A sequence of calls of `append_key`, `get_key`, `invalidate_key` and
`zeroise_key` says what each key should map to. The store answers accordingly
as long as no object is put into the last bytes of a region and no key that is
present is appended with a value shorter than its own.
-/

namespace TockKernel.TicKV

open Function Option List

variable {S : ℕ}

/-! ## Calls -/

inductive Call where
  | append (hash : BitVec 64) (value : List Byte)
  | get (hash : BitVec 64) (buf : List Byte)
  | invalidate (hash : BitVec 64)
  | zeroise (hash : BitVec 64)

inductive Answer where
  | changed (result : Except ErrorCode SuccessCode)
  | read (result : Except ErrorCode (SuccessCode × ℕ) × List Byte)
  deriving DecidableEq

def call (t : TicKV S) : Call → Result S Answer
  | .append hash value =>
    (t.appendKey hash value).map fun r => (.changed r.1, r.2)
  | .get hash buf => (t.getKey hash buf).map fun r => (.read r.1, r.2)
  | .invalidate hash =>
    (t.invalidateKey hash).map fun r => (.changed r.1, r.2)
  | .zeroise hash => (t.zeroiseKey hash).map fun r => (.changed r.1, r.2)

/-- The value of each key according to the last successful call that changed
it, in a history with the newest call first. -/
def stored (mainKey : BitVec 64) : List (Call × Answer) → BitVec 64 → Option (List Byte)
  | [] => Function.update (fun _ => none) mainKey (some [])
  | (.append hash value, .changed (.ok _)) :: history =>
    Function.update (stored mainKey history) hash (some value)
  | (.invalidate hash, .changed (.ok _)) :: history
  | (.zeroise hash, .changed (.ok _)) :: history =>
    Function.update (stored mainKey history) hash none
  | _ :: history => stored mainKey history

def Answers (map : BitVec 64 → Option (List Byte)) : Call → Answer → Prop
  | .append hash _, answer => ∃ result, answer = .changed result ∧
      (result = .error .keyAlreadyExists ↔ (map hash).isSome = true)
  | .get hash buf, answer => answer = .read (readResult buf (map hash))
  | .invalidate hash, answer | .zeroise hash, answer =>
    answer = .changed (if (map hash).isSome = true then .ok .written
        else .error .keyNotFound)

def firstFree (t : TicKV S) (packageLength : ℕ) : List ℕ → Option ℕ
  | [] => none
  | r :: regions =>
    match appendScan S packageLength (t.readRegion r) (S + 1) 0 with
    | .free offset => some offset
    | _ => t.firstFree packageLength regions

/-- The calls that TicKV answers as a map does: a new object leaves room for
one more header behind it, and a key that is present is not appended with a
value shorter than its own. -/
def Admissible (t : TicKV S) (map : BitVec 64 → Option (List Byte)) : Call → Prop
  | .append hash value => ValidHash hash ∧ headerLength + value.length + checkSumLen < 0xFFF ∧
      (∀ old, map hash = some old → old.length ≤ value.length) ∧ (map hash = none → ∀ offset,
        t.firstFree (headerLength + value.length) (t.order hash) = some offset →
        offset + (headerLength + value.length + checkSumLen) + headerLength < S)
  | .get hash _ | .invalidate hash | .zeroise hash => ValidHash hash

/-- The calls of a run, each of which meets the condition. -/
inductive MapRun (mainKey : BitVec 64) (t0 : TicKV S) : List (Call × Answer) → TicKV S → Prop where
  | start : MapRun mainKey t0 [] t0
  | call {history : List (Call × Answer)} {t t' : TicKV S} {c : Call}
      {answer : Answer} (run : MapRun mainKey t0 history t)
      (admissible : t.Admissible (stored mainKey history) c)
      (returns : t.call c = .ok (answer, t')) :
      MapRun mainKey t0 ((c, answer) :: history) t'

/-! ## Live entries -/

theorem Entry.length_value (e : Entry) :
    e.length = headerLength + e.value.length + checkSumLen := by
  have hbody := e.checkSumLen_le
  rw [Entry.value, length_take, Entry.length]
  omega

theorem length_le_used_of_mem {entries : List Entry} {e : Entry}
    (he : e ∈ entries) : e.length ≤ used entries := by
  obtain ⟨-, -, rfl⟩ := append_of_mem he
  rw [used_append, used_cons]
  omega

def isLive (hash : BitVec 64) (e : Entry) : Bool :=
  e.live && e.hash == hash

theorem isLive_iff {hash : BitVec 64} {e : Entry} : isLive hash e ↔ e.live ∧ e.hash = hash := by
  simp [isLive]

def liveCount (n : ℕ) (store : ℕ → List Entry) (hash : BitVec 64) : ℕ :=
  ∑ r ∈ Finset.range n, (store r).countP (isLive hash)

section

variable {n r : ℕ} {store : ℕ → List Entry} {hash : BitVec 64}

theorem liveCount_update (store : ℕ → List Entry) (hash : BitVec 64)
    (hr : r < n) (entries : List Entry) : liveCount n (update store r entries) hash +
        (store r).countP (isLive hash) = liveCount n store hash + entries.countP (isLive hash) := by
  have hmem := Finset.mem_range.mpr hr
  have hrest : ∑ r' ∈ (Finset.range n).erase r, (update store r entries r').countP (isLive hash) =
        ∑ r' ∈ (Finset.range n).erase r, (store r').countP (isLive hash) :=
    Finset.sum_congr rfl fun r' hr' => by
      rw [update_of_ne (Finset.ne_of_mem_erase hr')]
  unfold liveCount
  rw [← Finset.add_sum_erase _ _ hmem, ← Finset.add_sum_erase _ _ hmem, update_self]
  omega

theorem liveCount_pos (hr : r < n) {e : Entry} (he : e ∈ store r)
    (hlive : isLive hash e) : 0 < liveCount n store hash := by
  have hcount : 0 < (store r).countP (isLive hash) := countP_pos_iff.mpr ⟨e, he, hlive⟩
  exact hcount.trans_le (Finset.single_le_sum (f := fun r => (store r).countP (isLive hash))
    (fun _ _ => Nat.zero_le _) (Finset.mem_range.mpr hr))

theorem findIn_ne_none {entries : List Entry} {e : Entry} (he : e ∈ entries)
    (hlive : e.live) : findIn e.hash 0 entries ≠ none :=
  fun hnone => findIn_eq_none.mp hnone e he ⟨hlive, rfl⟩

theorem search_ne_none {before after : List ℕ} (hfound : findIn hash 0 (store r) ≠ none)
    (hbefore : ∀ r' ∈ before, continues S (store r')) :
    search S store hash (before ++ r :: after) ≠ none := by
  induction before with
  | nil =>
    obtain ⟨_, hfound⟩ := ne_none_iff_exists'.mp hfound
    rw [nil_append, search, hfound]
    exact some_ne_none _
  | cons r' before ih =>
    rw [cons_append, search, if_pos (hbefore r' mem_cons_self)]
    split
    · exact some_ne_none _
    · exact ih fun r'' hr'' => hbefore r'' (mem_cons_of_mem _ hr'')

variable {packageLength : ℕ}

theorem place_eq_found {before after : List ℕ} (hfound : findIn hash 0 (store r) ≠ none)
    (hbefore : ∀ r' ∈ before, S ≤ used (store r') + packageLength) :
    place S store hash packageLength (before ++ r :: after) = .found := by
  induction before with
  | nil =>
    obtain ⟨found, hfound⟩ := ne_none_iff_exists'.mp hfound
    rw [nil_append, place, hfound]
  | cons r' before ih =>
    rw [cons_append, place, if_pos (hbefore r' mem_cons_self),
      ih fun r'' hr'' => hbefore r'' (mem_cons_of_mem _ hr'')]
    split
    · rfl
    · rfl

section

variable {t : TicKV S} {before after : List Entry} {e e' : Entry}

section

variable (hlocated : Located t store hash r before e after)
include hlocated

theorem Located.used_replace (hlen : e'.length = e.length) (r' : ℕ) :
    used (update store r (before ++ e' :: after) r') = used (store r') := by
  by_cases hsame : r' = r
  · subst hsame
    rw [update_self, hlocated.split, used_append, used_append, used_cons, used_cons, hlen]
  · rw [update_of_ne hsame]

theorem Located.liveCount_replace (hdead : e'.live = false) (hash' : BitVec 64) :
    liveCount t.numRegion (update store r (before ++ e' :: after)) hash' +
      (if hash' = hash then 1 else 0) = liveCount t.numRegion store hash' := by
  have hupdate := liveCount_update store hash' hlocated.lt (before ++ e' :: after)
  have hnew : isLive hash' e' = false := by simp [isLive, hdead]
  have hold : isLive hash' e ↔ hash' = hash := by
    rw [isLive_iff, hlocated.hash_eq]
    exact ⟨fun hboth => hboth.2.symm, fun heq => ⟨hlocated.live, heq.symm⟩⟩
  rw [hlocated.split, countP_append, countP_append, countP_cons, countP_cons, hnew] at hupdate
  simp only [hold, Bool.false_eq_true, if_false] at hupdate
  omega

theorem Located.mem_of_mem_replace (hdead : e'.live = false) {r' : ℕ} {e'' : Entry}
    (he : e'' ∈ update store r (before ++ e' :: after) r') (hlive : e''.live) : e'' ∈ store r' := by
  by_cases hsame : r' = r
  · subst hsame
    rw [update_self] at he
    rw [hlocated.split]
    simp only [mem_append, mem_cons] at he ⊢
    rcases he with hmem | rfl | hmem
    · exact .inl hmem
    · exact absurd (hdead.symm.trans hlive) (by decide)
    · exact .inr (.inr hmem)
  · rwa [update_of_ne hsame] at he

theorem Located.mem_replace_of_mem {r' : ℕ} {e'' : Entry} (he : e'' ∈ store r')
    (hhash : e''.hash ≠ hash) : e'' ∈ update store r (before ++ e' :: after) r' := by
  by_cases hsame : r' = r
  · subst hsame
    rw [hlocated.split] at he
    rw [update_self]
    simp only [mem_append, mem_cons] at he ⊢
    rcases he with hmem | rfl | hmem
    · exact .inl hmem
    · exact absurd hlocated.hash_eq hhash
    · exact .inr (.inr hmem)
  · rwa [update_of_ne hsame]

end

end

theorem place_found {regions : List ℕ} (h : place S store hash packageLength regions = .found) :
    ∃ r ∈ regions, ∃ e ∈ store r, isLive hash e := by
  induction regions with
  | nil => cases h
  | cons r regions ih =>
    rw [place] at h
    split at h
    · next hfound =>
        obtain ⟨_, _, hsplit, -, hlive⟩ := findIn_eq_some hfound
        refine ⟨r, mem_cons_self, _, ?_, isLive_iff.mpr hlive⟩
        rw [hsplit]
        exact mem_append_right _ mem_cons_self
    split_ifs at h
    obtain ⟨r', hmem, hfound⟩ := ih h
    exact ⟨r', mem_cons_of_mem _ hmem, hfound⟩

theorem firstFree_of_place {t : TicKV S} (h : t.Represents store) {regions : List ℕ}
    (hregions : ∀ r ∈ regions, r < t.numRegion) (hlen : headerLength ≤ packageLength)
    (hplace : place S store hash packageLength regions = .inRegion r) :
    t.firstFree packageLength regions = some (used (store r)) := by
  induction regions with
  | nil => cases hplace
  | cons r' regions ih =>
    rw [place] at hplace
    rw [firstFree, (h.holds r' (hregions r' mem_cons_self)).appendScan_eq hlen]
    split at hplace
    · cases hplace
    split_ifs at hplace with hfull
    · rw [if_pos hfull]
      exact ih (fun r'' hr'' => hregions r'' (mem_cons_of_mem _ hr'')) hplace
    rw [if_neg hfull]
    cases hplace
    rfl

end

/-! ## The invariant -/

/-- The entries hold the map. A key is behind regions that had no room for its
object, and no region is full up to its last bytes, so that the search goes on
from them. -/
structure Mapped (t : TicKV S) (store : ℕ → List Entry)
    (map : BitVec 64 → Option (List Byte)) : Prop where
  represents : t.Represents store
  buffer : t.readBuffer = true
  room : ∀ r < t.numRegion, used (store r) + headerLength < S
  live : ∀ r < t.numRegion, ∀ e ∈ store r, e.live = true → map e.hash = some e.value
  unique : ∀ hash, liveCount t.numRegion store hash ≤ 1
  placed : ∀ hash value, map hash = some value →
    ∃ before r after, t.order hash = before ++ r :: after ∧
      (∃ e ∈ store r, isLive hash e = true) ∧
      ∀ r' ∈ before, S ≤ used (store r') + (headerLength + value.length)

namespace Mapped

variable {t : TicKV S} {store : ℕ → List Entry}
  {map : BitVec 64 → Option (List Byte)} {hash : BitVec 64}

theorem search_none (h : Mapped t store map) (hn : 0 < t.numRegion) (hmap : map hash = none) :
    search S store hash (t.order hash) = none := by
  cases hsearch : search S store hash (t.order hash) with
  | none => rfl
  | some found =>
    obtain ⟨r, _, e⟩ := found
    obtain ⟨_, _, -, hlocated⟩ := search_located hn hsearch
    have hlive := h.live r hlocated.lt e (by rw [hlocated.split]; simp) hlocated.live
    rw [hlocated.hash_eq, hmap] at hlive
    cases hlive

variable {value : List Byte}

section

variable (h : Mapped t store map)
include h

theorem search_some (hn : 0 < t.numRegion) (hmap : map hash = some value) :
    search S store hash (t.order hash) ≠ none := by
  obtain ⟨before, r, after, horder, ⟨e, he, hfound⟩, hbefore⟩ := h.placed hash value hmap
  have hr : ∀ r' ∈ before ++ r :: after, r' < t.numRegion := by
    rw [← horder]
    exact fun r' => order_lt hn
  obtain ⟨hlive, rfl⟩ := isLive_iff.mp hfound
  rw [horder]
  refine search_ne_none (findIn_ne_none he hlive) fun r' hr' => ?_
  -- The regions before have entries, since the object fits into a region.
  have hvalue : e.value = value := by
    have hlive := h.live r (hr r (by simp)) e he hlive
    rw [hmap] at hlive
    exact (some.inj hlive).symm
  have hfits := length_le_used_of_mem he
  rw [e.length_value, hvalue] at hfits
  have hroom := h.room r (hr r (by simp))
  have hfull := hbefore r' hr'
  have hnonempty : store r' ≠ [] := by
    intro hnil
    rw [hnil] at hfull
    change S ≤ 0 + _ at hfull
    omega
  simp only [continues, Bool.and_eq_true, decide_eq_true_eq,
    Bool.not_eq_true', isEmpty_eq_false_iff]
  exact ⟨h.room r' (hr r' (by simp [hr'])), hnonempty⟩

theorem lookup_eq (hn : 0 < t.numRegion) (hash : BitVec 64) :
    lookup S t.numRegion store hash = map hash := by
  unfold lookup
  cases hmap : map hash with
  | none => rw [h.search_none hn hmap, map_none]
  | some value =>
    obtain ⟨⟨r, _, e⟩, hsearch⟩ := ne_none_iff_exists'.mp (h.search_some hn hmap)
    obtain ⟨_, _, -, hlocated⟩ := search_located hn hsearch
    have hlive := h.live r hlocated.lt e (by rw [hlocated.split]; simp) hlocated.live
    rw [hlocated.hash_eq, hmap] at hlive
    rw [hsearch, map_some, ← hlive]

theorem liveCount_eq_zero (hmap : map hash = none) : liveCount t.numRegion store hash = 0 := by
  refine Finset.sum_eq_zero fun r hr => countP_eq_zero.mpr ?_
  intro e he hfound
  obtain ⟨hlive, rfl⟩ := isLive_iff.mp hfound
  have hvalue := h.live r (Finset.mem_range.mp hr) e he hlive
  rw [hmap] at hvalue
  cases hvalue

theorem remove {before after : List Entry} {e e' : Entry}
    (hlocated : Located t store hash r before e after) (hdead : e'.live = false)
    (hlength : e'.length = e.length) {t' : TicKV S}
    (hchanged : Changed t t' (update store r (before ++ e' :: after))) :
    Mapped t' (update store r (before ++ e' :: after)) (update map hash none) := by
  have hn := hchanged.numRegion_eq
  have hcount := hlocated.liveCount_replace hdead
  refine ⟨hchanged.represents, hchanged.buffer, fun r' hr' => ?_,
    fun r' hr' e'' he'' hlive => ?_, fun hash' => ?_, fun hash' value hmap => ?_⟩
  · rw [hlocated.used_replace hlength]
    exact h.room r' (hn ▸ hr')
  · rw [hn] at hr'
    by_cases hhash : e''.hash = hash
    · -- The key had one live entry only.
      have hpos := liveCount_pos hr' he'' (isLive_iff.mpr ⟨hlive, hhash⟩)
      have hone := h.unique hash
      have hsum := hcount hash
      rw [if_pos rfl] at hsum
      omega
    · rw [update_of_ne hhash]
      exact h.live r' hr' e'' (hlocated.mem_of_mem_replace hdead he'' hlive) hlive
  · rw [hn]
    exact (Nat.le_add_right _ _).trans ((hcount hash').trans_le (h.unique hash'))
  · have hhash : hash' ≠ hash := by
      rintro rfl
      rw [update_self] at hmap
      cases hmap
    rw [update_of_ne hhash] at hmap
    obtain ⟨pre, r', post, horder, ⟨e'', he'', hlive⟩, hpre⟩ := h.placed hash' value hmap
    refine ⟨pre, r', post, (order_congr hn _).trans horder, ⟨e'', ?_, hlive⟩, fun r'' hr'' => ?_⟩
    · refine hlocated.mem_replace_of_mem he'' ?_
      rwa [(isLive_iff.mp hlive).2]
    · rw [hlocated.used_replace hlength]
      exact hpre r'' hr''

theorem add (hmap : map hash = none) {r : ℕ} {before after : List ℕ}
    (horder : t.order hash = before ++ r :: after) (hr : r < t.numRegion)
    (hbefore : ∀ r' ∈ before, S ≤ used (store r') + (headerLength + value.length))
    {hvalue : Storable value}
    (hroom : used (store r) + (headerLength + value.length + checkSumLen) + headerLength < S)
    {t' : TicKV S}
    (hchanged : Changed t t' (update store r (store r ++ [.ofValue hash value hvalue]))) :
    Mapped t' (update store r (store r ++ [.ofValue hash value hvalue]))
      (update map hash (some value)) := by
  have hn := hchanged.numRegion_eq
  have hlen := Entry.length_ofValue hash hvalue
  have hmono : ∀ r', used (store r') ≤ used (update store r
      (store r ++ [.ofValue hash value hvalue]) r') := by
    intro r'
    by_cases hsame : r' = r
    · subst hsame
      rw [update_self, used_append]
      exact Nat.le_add_right _ _
    · rw [update_of_ne hsame]
  have hcases : ∀ r' e, e ∈ update store r (store r ++ [.ofValue hash value hvalue]) r' →
        e ∈ store r' ∨ e = .ofValue hash value hvalue := by
    intro r' e he
    by_cases hsame : r' = r
    · subst hsame
      rw [update_self, mem_append, mem_singleton] at he
      exact he
    · rw [update_of_ne hsame] at he
      exact .inl he
  refine ⟨hchanged.represents, hchanged.buffer, fun r' hr' => ?_,
    fun r' hr' e he hlive => ?_, fun hash' => ?_, fun hash' value' hmap' => ?_⟩
  · by_cases hsame : r' = r
    · subst hsame
      rw [update_self, used_append, used_cons, hlen]
      exact hroom
    · rw [update_of_ne hsame]
      exact h.room r' (hn ▸ hr')
  · rcases hcases r' e he with hold | rfl
    · have hlive' := h.live r' (hn ▸ hr') e hold hlive
      have hhash : e.hash ≠ hash := by
        rintro rfl
        rw [hmap] at hlive'
        cases hlive'
      rwa [update_of_ne hhash]
    · rw [Entry.value_ofValue]
      exact update_self ..
  · have hupdate := liveCount_update store hash' hr (store r ++ [.ofValue hash value hvalue])
    rw [countP_append, countP_singleton] at hupdate
    rw [hn]
    by_cases hhash : hash' = hash
    · subst hhash
      have hzero := h.liveCount_eq_zero hmap
      split_ifs at hupdate <;> omega
    have hother : isLive hash' (.ofValue hash value hvalue) = false := by
      simp [isLive, Entry.ofValue, Ne.symm hhash]
    have hone := h.unique hash'
    rw [hother] at hupdate
    simp only [Bool.false_eq_true, if_false] at hupdate
    omega
  · by_cases hhash : hash' = hash
    · subst hhash
      rw [update_self, some.injEq] at hmap'
      subst hmap'
      refine ⟨before, r, after, (order_congr hn _).trans horder, ⟨.ofValue hash' value hvalue, ?_,
        isLive_iff.mpr ⟨rfl, rfl⟩⟩, fun r' hr' => ?_⟩
      · rw [update_self]
        simp
      · exact (hbefore r' hr').trans (Nat.add_le_add_right (hmono r') _)
    rw [update_of_ne hhash] at hmap'
    obtain ⟨pre, r', post, horder', ⟨e, he, hlive⟩, hpre⟩ := h.placed hash' value' hmap'
    refine ⟨pre, r', post, (order_congr hn _).trans horder', ⟨e, ?_, hlive⟩, fun r'' hr'' => ?_⟩
    · by_cases hsame : r' = r
      · subst hsame
        rw [update_self]
        exact mem_append_left _ he
      · rwa [update_of_ne hsame]
    · exact (hpre r'' hr'').trans (Nat.add_le_add_right (hmono r'') _)

end

/-! ## Calls in a mapped store -/

section

variable (h : Mapped t store map) (hn : 0 < t.numRegion) (hhash : ValidHash hash)
include h hn hhash

theorem append_present {old : List Byte} (hvalue : Storable value) (hmap : map hash = some old)
    (hlen : old.length ≤ value.length) :
    t.appendKey hash value = .ok (.error .keyAlreadyExists, t) := by
  obtain ⟨_, r, _, horder, ⟨e, he, hfound⟩, hbefore⟩ := h.placed hash old hmap
  obtain ⟨hlive, rfl⟩ := isLive_iff.mp hfound
  rw [appendKey_eq h.represents h.buffer hn hhash hvalue, horder,
    place_eq_found (findIn_ne_none he hlive) fun r' hr' => ?_, appendResult]
  have hfull := hbefore r' hr'
  omega

theorem append_absent (hvalue : Storable value)
    (hmap : map hash = none)
    (hroom : ∀ offset, t.firstFree (headerLength + value.length) (t.order hash) =
      some offset → offset + (headerLength + value.length + checkSumLen) + headerLength < S) :
    t.appendKey hash value = .ok (.error .flashFull, t) ∨
      ∃ t' store', t.appendKey hash value = .ok (.ok .written, t') ∧ t'.numRegion = t.numRegion ∧
        Mapped t' store' (update map hash (some value)) := by
  rw [appendKey_eq h.represents h.buffer hn hhash hvalue]
  cases hplace : place S store hash (headerLength + value.length) (t.order hash) with
  | found =>
    obtain ⟨r, hr, e, he, hfound⟩ := place_found hplace
    have hpos := liveCount_pos (order_lt hn hr) he hfound
    have hzero := h.liveCount_eq_zero hmap
    omega
  | full => exact .inl rfl
  | inRegion r =>
    obtain ⟨_, _, horder, -, hbefore, -⟩ := place_inRegion hplace
    have hregions : ∀ r ∈ t.order hash, r < t.numRegion := fun r => order_lt hn
    have hr : r < t.numRegion := hregions r (by rw [horder]; simp)
    have hfree := firstFree_of_place h.represents hregions (Nat.le_add_right ..) hplace
    have hroom := hroom _ hfree
    have hfits : used (store r) + (headerLength + value.length) + checkSumLen ≤ S := by omega
    have hchanged : Changed t _ (update store r (store r ++ [.ofValue hash value hvalue])) :=
      h.represents.append h.buffer hr hvalue hfits
    rw [appendResult, if_neg (by omega)]
    exact .inr ⟨_, _, rfl, hchanged.numRegion_eq, h.add hmap horder hr hbefore hroom hchanged⟩

theorem invalidate : (map hash = none ∧ t.invalidateKey hash = .ok (.error .keyNotFound, t)) ∨
      (map hash).isSome ∧ ∃ t' store', t.invalidateKey hash = .ok (.ok .written, t') ∧
        t'.numRegion = t.numRegion ∧ Mapped t' store' (update map hash none) := by
  rw [← h.lookup_eq hn, lookup]
  rcases invalidateKey_outcome h.represents h.buffer hn hhash with
    ⟨hnone, hres⟩ | ⟨r, _, e, _, t', hsome, hlocated, hres, hchanged⟩
  · rw [hnone]
    exact .inl ⟨rfl, hres⟩
  rw [hsome]
  exact .inr ⟨rfl, t', _, hres, hchanged.numRegion_eq,
    h.remove hlocated (show e.invalidate.live = false from rfl) rfl hchanged⟩

theorem zeroise : (map hash = none ∧ t.zeroiseKey hash = .ok (.error .keyNotFound, t)) ∨
      (map hash).isSome ∧ ∃ t' store', t.zeroiseKey hash = .ok (.ok .written, t') ∧
        t'.numRegion = t.numRegion ∧ Mapped t' store' (update map hash none) := by
  rw [← h.lookup_eq hn, lookup]
  rcases zeroiseKey_outcome h.represents h.buffer hn hhash with
    ⟨hnone, hres⟩ | ⟨r, _, e, _, hsome, hlocated, ⟨hend, -⟩ | ⟨-, t', hres, hchanged⟩⟩
  · rw [hnone]
    exact .inl ⟨rfl, hres⟩
  · -- Behind the last entry of a region there is room for a header.
    have hroom := h.room r hlocated.lt
    rw [hlocated.split, used_append, used_cons] at hroom
    omega
  rw [hsome]
  exact .inr ⟨rfl, t', _, hres, hchanged.numRegion_eq,
    h.remove hlocated rfl e.length_zeroise hchanged⟩

end

theorem call {mainKey : BitVec 64} {history : List (Call × Answer)}
    (h : Mapped t store (stored mainKey history)) (hn : 0 < t.numRegion)
    {c : Call} (hc : t.Admissible (stored mainKey history) c) :
    ∃ answer t' store', t.call c = .ok (answer, t') ∧ Answers (stored mainKey history) c answer ∧
      t'.numRegion = t.numRegion ∧ Mapped t' store' (stored mainKey ((c, answer) :: history)) := by
  cases c with
  | append hash value =>
    obtain ⟨hhash, hvalue, hpresent, habsent⟩ := hc
    rw [TicKV.call]
    cases hmap : stored mainKey history hash with
    | some old =>
      rw [h.append_present hn hhash hvalue hmap (hpresent old hmap)]
      refine ⟨_, t, store, rfl, ⟨_, rfl, ?_⟩, rfl, h⟩
      simp [hmap]
    | none =>
      rcases h.append_absent hn hhash hvalue hmap (habsent hmap) with
        hres | ⟨t', store', hres, hsize, h'⟩
      · rw [hres]
        refine ⟨_, t, store, rfl, ⟨_, rfl, ?_⟩, rfl, h⟩
        simp [hmap]
      rw [hres]
      refine ⟨_, t', store', rfl, ⟨_, rfl, ?_⟩, hsize, h'⟩
      simp [hmap]
  | get hash buf =>
    rw [TicKV.call, getKey_eq h.represents h.buffer hn hc, h.lookup_eq hn]
    exact ⟨_, t, store, rfl, rfl, rfl, h⟩
  | invalidate hash =>
    rw [TicKV.call]
    rcases h.invalidate hn hc with
      ⟨hmap, hres⟩ | ⟨hmap, t', store', hres, hsize, h'⟩
    · rw [hres]
      refine ⟨_, t, store, rfl, ?_, rfl, h⟩
      simp [Answers, hmap]
    rw [hres]
    refine ⟨_, t', store', rfl, ?_, hsize, h'⟩
    simp [Answers, hmap]
  | zeroise hash =>
    rw [TicKV.call]
    rcases h.zeroise hn hc with
      ⟨hmap, hres⟩ | ⟨hmap, t', store', hres, hsize, h'⟩
    · rw [hres]
      refine ⟨_, t, store, rfl, ?_, rfl, h⟩
      simp [Answers, hmap]
    rw [hres]
    refine ⟨_, t', store', rfl, ?_, hsize, h'⟩
    simp [Answers, hmap]

theorem initialise {mainKey : BitVec 64} {t0 : TicKV S} (hn : 0 < t.numRegion)
    (hroom : headerLength + checkSumLen + headerLength < S)
    (hinit : t.initialise mainKey = .ok (.ok .written, t0)) : t0.numRegion = t.numRegion ∧
      ∃ store, Mapped t0 store (stored mainKey []) := by
  obtain ⟨-, -, erased, herased, hchanged⟩ := initialise_written hn hinit
  have hempty : Mapped erased (fun _ => []) fun _ => none := by
    refine ⟨herased.represents, herased.buffer, fun r _ => ?_,
      fun r _ e he => ?_, fun hash => ?_, fun hash value hmap => ?_⟩
    · change 0 + headerLength < S
      omega
    · cases he
    · simp [liveCount]
    · cases hmap
  have hsize := herased.numRegion_eq
  obtain ⟨_, horder⟩ := erased.order_eq_cons mainKey
  rw [← hsize] at hchanged hn
  refine ⟨hchanged.numRegion_eq.trans hsize, _,
    hempty.add rfl horder (Nat.mod_lt _ hn) (fun r hr => ?_) ?_ hchanged⟩
  · cases hr
  · change 0 + (headerLength + 0 + checkSumLen) + headerLength < S
    omega

end Mapped

theorem MapRun.mapped {mainKey : BitVec 64} {t0 t : TicKV S}
    {history : List (Call × Answer)} (hn : 0 < t0.numRegion)
    (hstart : ∃ store, Mapped t0 store (stored mainKey [])) (hrun : MapRun mainKey t0 history t) :
    t.numRegion = t0.numRegion ∧ ∃ store, Mapped t store (stored mainKey history) := by
  induction hrun with
  | start => exact ⟨rfl, hstart⟩
  | call run admissible returns ih =>
    obtain ⟨hsize, store, h⟩ := ih
    obtain ⟨_, _, store', hcall, -, hsize', h'⟩ := h.call (hsize ▸ hn) admissible
    cases returns.symm.trans hcall
    exact ⟨hsize'.trans hsize, store', h'⟩

/-- In a run from a store that has just been set up, if every call meets the
condition, then every call is answered as a map answers it. -/
theorem map_semantics {mainKey : BitVec 64} {blank t0 t : TicKV S} {history : List (Call × Answer)}
    {c : Call} (hn : 0 < blank.numRegion) (hroom : headerLength + checkSumLen + headerLength < S)
    (hinit : blank.initialise mainKey = .ok (.ok .written, t0)) (hrun : MapRun mainKey t0 history t)
    (hc : t.Admissible (stored mainKey history) c) :
    ∃ answer t', t.call c = .ok (answer, t') ∧ Answers (stored mainKey history) c answer := by
  obtain ⟨hsize, hstart⟩ := Mapped.initialise hn hroom hinit
  have hn0 : 0 < t0.numRegion := hsize ▸ hn
  obtain ⟨hsize', store, h⟩ := hrun.mapped hn0 hstart
  obtain ⟨answer, t', -, hcall, hanswer, -⟩ := h.call (hsize' ▸ hn0) hc
  exact ⟨answer, t', hcall, hanswer⟩

/-! ## Small stores -/

def blankFlash (S n : ℕ) : TicKV S where
  flash := fun _ => 0xFF
  flashSize := S * n
  readBuffer := true

def stateAfter {α : Type} (t : TicKV S) : Result S α → TicKV S
  | .ok (_, t') => t'
  | .error _ => t

theorem eq_stateAfter (t : TicKV S) {result : Result S α} {a : α}
    (h : result.map Prod.fst = .ok a) : result = .ok (a, t.stateAfter result) := by
  match result, h with
  | .ok (_, t'), rfl => rfl

def answers (t : TicKV S) : List Call → Except Abort (List Answer)
  | [] => .ok []
  | c :: calls =>
    match t.call c with
    | .error abort => .error abort
    | .ok (answer, t) => (t.answers calls).map (answer :: ·)

def smallStore : TicKV 64 :=
  (blankFlash 64 2).stateAfter ((blankFlash 64 2).initialise 1)

theorem smallStore_initialise : (blankFlash 64 2).initialise 1 = .ok (.ok .written, smallStore) :=
  eq_stateAfter (blankFlash 64 2) (by decide +kernel)

theorem map_semantics_small : ∃ t, MapRun 1 smallStore
        [(.append 2 [1, 2, 3], .changed (.ok .written))] t ∧
      t.Admissible (stored 1 [(.append 2 [1, 2, 3], .changed (.ok .written))])
        (.get 2 [0, 0, 0, 0]) ∧ ∃ t', t.call (.get 2 [0, 0, 0, 0]) =
        .ok (.read (.ok (.complete, 3), [1, 2, 3, 0]), t') := by
  have hfree : smallStore.firstFree (headerLength + 3)
      (smallStore.order 2) = some 0 := by decide +kernel
  have happend : smallStore.Admissible (stored 1 []) (.append 2 [1, 2, 3]) := by
    refine ⟨by unfold ValidHash; decide, by decide, ?_, ?_⟩
    · intro old hold
      cases hold
    · intro _ offset hoffset
      cases hfree.symm.trans hoffset
      decide
  have hrun := MapRun.call .start happend (eq_stateAfter smallStore (by decide +kernel :
      (smallStore.call (.append 2 [1, 2, 3])).map Prod.fst = .ok (.changed (.ok .written))))
  have hget : (smallStore.stateAfter (smallStore.call (.append 2 [1, 2, 3]))).Admissible
        (stored 1 [(.append 2 [1, 2, 3], .changed (.ok .written))]) (.get 2 [0, 0, 0, 0]) := by
    change ValidHash 2
    unfold ValidHash
    decide
  obtain ⟨_, t', hcall, hanswer⟩ := map_semantics (by decide) (by decide)
    smallStore_initialise hrun hget
  refine ⟨_, hrun, hget, t', ?_⟩
  rw [hcall, hanswer]
  rfl

/-- The first calls store key 6 behind its full home region, where it cannot be
found. In the second sequence key 4 is at the end of a region, and the read
buffer is lost when it is zeroised. In the third one key 4 is stored twice, and
its first value comes back when it is deleted. -/
theorem spilled_key_not_found : smallStore.answers [.append 2 (List.replicate 20 5),
        .append 4 (List.replicate 8 7), .append 6 [1, 2], .get 6 [0, 0],
        .append 6 [1, 2], .invalidate 6] = .ok [.changed (.ok .written), .changed (.ok .written),
        .changed (.ok .written), .read (.error .keyNotFound, [0, 0]),
        .changed (.error .keyAlreadyExists), .changed (.error .keyNotFound)] ∧
    smallStore.answers [.append 2 (List.replicate 20 5),
        .append 4 (List.replicate 8 7), .zeroise 4] =
      .ok [.changed (.ok .written), .changed (.ok .written), .changed (.error .regionFull)] ∧
    smallStore.answers [.append 2 (List.replicate 20 5),
        .append 4 (List.replicate 8 7), .zeroise 4, .get 4 []] = .error .panic ∧
    smallStore.answers [.append 2 (List.replicate 12 5),
        .append 4 (List.replicate 30 7), .append 4 [1], .invalidate 4,
        .get 4 (List.replicate 30 0)] = .ok [.changed (.ok .written), .changed (.ok .written),
        .changed (.ok .written), .changed (.ok .written),
        .read (.ok (.complete, 30), List.replicate 30 7)] := by
  decide +kernel

end TockKernel.TicKV

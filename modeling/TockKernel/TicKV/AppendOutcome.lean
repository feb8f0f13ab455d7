import TockKernel.TicKV.AnyFlash

/-!
# What a call of `append_key` leads to

A store whose regions hold entries either takes a new object, so that `get_key`
finds it, or refuses it and is left as it was. There are two exceptions. An
object of exactly 0xFFF bytes passes the check of its length and fails an
assertion behind it. An object that is put into a region farther on is not
found if a region before it is full up to its last bytes.
-/

namespace TockKernel.TicKV

open Entry Function

variable {S : ℕ} {t : TicKV S} {store : ℕ → List Entry} {hash : BitVec 64}
  {value : List Byte}

/-- The object is stored and can be read, or there is an error and the flash is as
it was. -/
def StoredOrRefused (t : TicKV S) (hash : BitVec 64) (value : List Byte) : Prop :=
  ∃ result t', t.appendKey hash value = .ok (result, t') ∧
    match result with
    | .ok _ =>
      (∀ buf : List Byte, value.length ≤ buf.length →
        t'.getKey hash buf = .ok ((.ok (.complete, value.length),
          value ++ buf.drop value.length), t')) ∧
      ∃ r < t.numRegion, ∃ offset, offset + (objectBytes hash value).length ≤ S ∧
        t' = t.write (S * r + offset) (objectBytes hash value) ∧
        entryLength (objectBytes hash value) 0 = (objectBytes hash value).length
    | .error _ => t'.flash = t.flash

/-- A region takes the object if neither it nor a region before it has the key,
the regions before it have no room and the region has room, also for the
checksum. -/
structure Takes (S : ℕ) (store : ℕ → List Entry) (hash : BitVec 64)
    (packageLength : ℕ) (before : List ℕ) (r : ℕ) : Prop where
  absent : ∀ r' ∈ r :: before, findIn hash 0 (store r') = none
  full : ∀ r' ∈ before, S ≤ used (store r') + packageLength
  room : used (store r) + packageLength + checkSumLen ≤ S

/-- The search for a key goes on behind all regions that come before the one that
takes the object. -/
def FoundAgain (t : TicKV S) (store : ℕ → List Entry) (hash : BitVec 64)
    (packageLength : ℕ) : Prop :=
  ∀ before r after, t.order hash = before ++ r :: after →
    Takes S store hash packageLength before r → ∀ r' ∈ before, continues S (store r') = true

variable {r packageLength : ℕ} {before after : List ℕ}

theorem Takes.notMem (h : Takes S store hash packageLength before r) : r ∉ before := by
  intro hmem
  have hfull := h.full r hmem
  have hroom := h.room
  unfold checkSumLen at hroom
  omega

theorem place_of_takes (h : Takes S store hash packageLength before r) :
    place S store hash packageLength (before ++ r :: after) = .inRegion r := by
  have hroom := h.room
  unfold checkSumLen at hroom
  have hplace : ∀ regions, (∀ r' ∈ regions, r' ∈ before) →
      place S store hash packageLength (regions ++ r :: after) = .inRegion r := by
    intro regions hregions
    induction regions with
    | nil =>
      rw [List.nil_append, place, h.absent r (by simp)]
      rw [if_neg (by omega)]
    | cons r' regions ih =>
      have hmem := hregions r' (by simp)
      rw [List.cons_append, place, h.absent r' (by simp [hmem])]
      rw [if_pos (h.full r' hmem)]
      exact ih fun r'' hr'' => hregions r'' (by simp [hr''])
  exact hplace before fun _ => id

theorem entryLength_objectBytes (hvalue : Storable value) :
    entryLength (objectBytes hash value) 0 = (objectBytes hash value).length := by
  rw [← bytes_ofValue hvalue, length_bytes]
  exact (ofValue hash value hvalue).totalLength_len

theorem getKey_of_takes (h : t.Represents store) (hbuf : t.readBuffer) (hsearch : t.Searchable hash)
    (horder : t.order hash = before ++ r :: after) (hvalue : Storable value)
    (htakes : Takes S store hash (headerLength + value.length) before r) (buf : List Byte) :
    let t' := t.write (S * r + used (store r)) (objectBytes hash value)
    t'.getKey hash buf = .ok (readResult buf
      (if ∀ r' ∈ before, continues S (store r') then some value else none), t') := by
  intro t'
  have hr : r < t.numRegion := order_lt hsearch.2 (by rw [horder]; simp)
  have hchanged : Changed t t' (update store r (store r ++ [.ofValue hash value hvalue])) :=
    h.append hbuf hr hvalue htakes.room
  rw [getKey_eq hchanged.represents hchanged.buffer
    (hchanged.numRegion_eq ▸ hsearch.2) hsearch.1, lookup, hchanged.numRegion_eq,
    show probeOrder t.numRegion hash = _ from horder]
  have hother : ∀ r' ∈ before, update store r
      (store r ++ [.ofValue hash value hvalue]) r' = store r' := by
    intro r' hr'
    exact update_of_ne (ne_of_mem_of_not_mem hr' htakes.notMem) _ _
  have hnone : ∀ r' ∈ before, findIn hash 0 (update store r
      (store r ++ [.ofValue hash value hvalue]) r') = none := by
    intro r' hr'
    rw [hother r' hr']
    exact htakes.absent r' (by simp [hr'])
  have hnew : findIn hash 0 (update store r (store r ++ [.ofValue hash value hvalue]) r) =
        some (0 + used (store r), .ofValue hash value hvalue) := by
    rw [update_self, findIn_append, htakes.absent r (by simp)]
    simp [findIn, ofValue]
  rw [search_before hnone hnew]
  by_cases hcont : ∀ r' ∈ before, continues S (store r')
  · rw [if_pos fun r' hr' => by rw [hother r' hr']; exact hcont r' hr',
      if_pos hcont, Option.map_some, value_ofValue]
  · rw [if_neg fun h => hcont fun r' hr' => hother r' hr' ▸ h r' hr', if_neg hcont, Option.map_none]

theorem Takes.unique {r' : ℕ} {before' after' : List ℕ}
    (h : Takes S store hash packageLength before r)
    (h' : Takes S store hash packageLength before' r')
    (horder : before ++ r :: after = before' ++ r' :: after') : r = r' ∧ before = before' := by
  have hsame : r = r' := by
    have hplace : place S store hash packageLength (before ++ r :: after) =
        .inRegion r := place_of_takes h
    rw [horder, place_of_takes h'] at hplace
    exact (Placement.inRegion.inj hplace).symm
  subst hsame
  have htake := congrArg (List.takeWhile (· != r)) horder
  rw [takeWhile_before h.notMem, takeWhile_before h'.notMem] at htake
  exact ⟨rfl, htake⟩

theorem stored_iff (h : t.Represents store) (hbuffer : t.readBuffer)
    (hsearch : t.Searchable hash) (hvalue : Storable value) :
    t.StoredOrRefused hash value ↔ t.FoundAgain store hash (headerLength + value.length) := by
  have happend := appendKey_eq h hbuffer hsearch.2 hsearch.1 hvalue
  -- the object is refused and no region takes it
  have hrefused : ∀ {e t'}, t.appendKey hash value = .ok (.error e, t') → t'.flash = t.flash →
      (∀ before r after, t.order hash = before ++ r :: after →
        ¬ Takes S store hash (headerLength + value.length) before r) →
      (t.StoredOrRefused hash value ↔ t.FoundAgain store hash (headerLength + value.length)) := by
    intro e t' hres hflash hnone
    exact iff_of_true ⟨_, _, hres, hflash⟩ fun before r after horder htakes =>
      absurd htakes (hnone before r after horder)
  cases hplace : place S store hash (headerLength + value.length) (t.order hash) with
  | found | full =>
    rw [hplace] at happend
    refine hrefused happend rfl fun before r after horder htakes => ?_
    rw [horder, place_of_takes htakes] at hplace
    cases hplace
  | inRegion r =>
    obtain ⟨before, after, horder, -, hfull, habsent⟩ := place_inRegion hplace
    rw [hplace, appendResult] at happend
    split_ifs at happend with hsmall
    · refine hrefused happend rfl fun before' r' after' horder' htakes => ?_
      rw [horder', place_of_takes htakes] at hplace
      obtain rfl := Placement.inRegion.inj hplace
      have hroom := htakes.room
      omega
    have htakes : Takes S store hash (headerLength + value.length) before r :=
      ⟨habsent, hfull, Nat.not_lt.mp hsmall⟩
    have hget := getKey_of_takes h hbuffer hsearch horder hvalue htakes
    have hfound : t.FoundAgain store hash (headerLength + value.length) ↔
        ∀ r' ∈ before, continues S (store r') := by
      refine ⟨fun hall => hall before r after horder htakes, ?_⟩
      intro hall before' r' after' horder' htakes'
      obtain ⟨-, rfl⟩ := htakes.unique htakes' (horder.symm.trans horder')
      exact hall
    rw [hfound]
    constructor
    · rintro ⟨_, t', hres, houtcome⟩
      rw [happend] at hres
      cases hres
      by_contra hstops
      have hvalueRead := houtcome.1 value le_rfl
      rw [hget, if_neg hstops] at hvalueRead
      cases hvalueRead
    · intro hall
      refine ⟨_, _, happend, fun buf hbuf => ?_, ?_⟩
      · rw [hget, if_pos hall, readResult, if_neg (by omega)]
      · have hr : r < t.numRegion := order_lt hsearch.2 (by rw [horder]; simp)
        refine ⟨r, hr, used (store r), ?_, rfl, entryLength_objectBytes hvalue⟩
        rw [← bytes_ofValue hvalue, length_bytes, length_ofValue hash hvalue]
        omega

/-- A call of `append_key` ends as it should if and only if the key is none that is
refused, the object does not have exactly 0xFFF bytes, and it is not put behind a
region that ends the search for its key. -/
theorem storedOrRefused_iff (h : t.Represents store) (hbuffer : t.readBuffer = true)
    (hash : BitVec 64) (value : List Byte) : t.StoredOrRefused hash value ↔
      t.Searchable hash ∧ headerLength + value.length + checkSumLen ≠ 0xFFF ∧
        (headerLength + value.length + checkSumLen < 0xFFF →
          t.FoundAgain store hash (headerLength + value.length)) := by
  rcases t.getRegion_cases hash with ⟨hnot, hregion⟩ | ⟨hsearch, hregion⟩
  · refine iff_of_false ?_ fun h => hnot h.1
    rintro ⟨result, t', hres, -⟩
    rw [appendKey, hregion] at hres
    cases hres
  simp only [hsearch, true_and]
  rcases lt_trichotomy (headerLength + value.length + checkSumLen) 0xFFF with
    hvalue | hmax | hlarge
  · simp only [hvalue.ne, ne_eq, not_false_eq_true, true_and, hvalue, true_imp_iff]
    exact stored_iff h hbuffer hsearch hvalue
  · refine iff_of_false ?_ fun h => h.1 hmax
    rintro ⟨result, t', hres, -⟩
    unfold appendKey at hres
    rw [hregion] at hres
    simp only [hmax] at hres
    cases hres
  refine iff_of_true ⟨.error .objectTooLarge, t, ?_, rfl⟩ ⟨by omega, fun h => by omega⟩
  unfold appendKey
  rw [hregion]
  simp only
  rw [if_pos hlarge]

theorem represents_erased : (flashOf []).Represents fun _ => [] := by
  refine ⟨fun r _ => ?_, fun r _ e he => nomatch he⟩
  exact Holds.erased

theorem storedOrRefused_erased :
    (flashOf []).readBuffer = true ∧ (flashOf []).StoredOrRefused 5 [7] := by
  have hsearch : (flashOf []).Searchable 5 := by
    refine ⟨?_, by decide⟩
    unfold ValidHash
    decide
  refine ⟨rfl, (storedOrRefused_iff represents_erased rfl 5 [7]).mpr
    ⟨hsearch, by decide, fun _ before r after horder _ => ?_⟩⟩
  -- there is only one region, so that none comes before
  have hlen := congrArg List.length horder
  rw [show (flashOf []).order 5 = [0] by decide +kernel,
    List.length_append, List.length_singleton, List.length_cons] at hlen
  have hnil : before = [] := List.length_eq_zero_iff.mp (by omega)
  rw [hnil]
  exact fun _ hmem => nomatch hmem

/-- Two regions of 32 bytes. In the first one there are 11 bytes left behind an
object. -/
def nearlyFull : TicKV 32 where
  flash := fun address => (objectBytes 2 (List.replicate 6 0)).getD address 0xFF
  flashSize := 64
  readBuffer := true

def appendThenGet (t : TicKV S) (hash : BitVec 64) (value buf : List Byte) :
    Except Abort (Except ErrorCode SuccessCode × Except ErrorCode (SuccessCode × ℕ)) :=
  match t.appendKey hash value with
  | .error abort => .error abort
  | .ok (result, t') =>
    match t'.getKey hash buf with
    | .error abort => .error abort
    | .ok ((result', _), _) => .ok (result, result')

/-- The search for the object stops at the region before it. A value of 4080 bytes is a panic. -/
theorem appended_object_not_read : ¬ nearlyFull.StoredOrRefused 4 [1] ∧
      appendThenGet nearlyFull 4 [1] [0] = .ok (.ok .written, .error .keyNotFound) ∧
      aborts ((flashOf []).appendKey 5 (List.replicate 4080 0)) = some .panic := by
  have hrun : appendThenGet nearlyFull 4 [1] [0] =
      .ok (.ok .written, .error .keyNotFound) := by decide +kernel
  refine ⟨?_, hrun, ?_⟩
  · rintro ⟨result, _, hres, houtcome⟩
    rw [appendThenGet, hres] at hrun
    cases result with
    | ok code =>
      simp only [houtcome.1 [0] (by decide)] at hrun
      cases hrun
    | error e =>
      simp only at hrun
      split at hrun
      · cases hrun
      · cases hrun
  · unfold appendKey
    rw [List.length_replicate]
    decide +kernel

end TockKernel.TicKV

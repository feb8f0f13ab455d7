import TockKernel.TicKV.Region

/-!
# The store as lists of entries

What the operations of TicKV do to the entries of its regions. A key is looked
for in its home region and then in the neighbouring ones, in an order that
visits nearer regions first.
-/

namespace TockKernel.TicKV

open Entry Function Nat
open List hiding length

variable {S : ℕ} {t : TicKV S}

/-! ## The flash -/

theorem getElem?_readRegion (t : TicKV S) (region i : ℕ) : (t.readRegion region)[i]? =
      if i < S then some (t.flash (S * region + i)) else none := by
  unfold readRegion
  rw [getElem?_map]
  split_ifs with hi
  · rw [getElem?_range hi]
    rfl
  · rw [getElem?_eq_none (by simpa using hi)]
    rfl

theorem length_readRegion (t : TicKV S) (region : ℕ) : (t.readRegion region).length = S := by
  simp [readRegion]

variable {regionData : List Byte} {offset region n fuel r : ℕ}
  {hash : BitVec 64} {e : Entry} {store : ℕ → List Entry}

theorem getElem?_splice {buf : List Byte}
    (hfits : offset + buf.length ≤ regionData.length) (i : ℕ) : (splice regionData offset buf)[i]? =
      if offset ≤ i ∧ i < offset + buf.length then buf[i - offset]?
      else regionData[i]? := by
  unfold splice
  have htake : (regionData.take offset).length = offset := by
    rw [length_take]
    omega
  by_cases hbelow : i < offset
  · rw [if_neg (by omega), append_assoc,
      getElem?_append_left (by omega), getElem?_take_of_lt hbelow]
  by_cases hinside : i < offset + buf.length
  · rw [if_pos ⟨by omega, hinside⟩, getElem?_append_left (by
      rw [length_append]
      omega), getElem?_append_right (by omega), htake]
  rw [if_neg (by omega), getElem?_append_right (by
    rw [length_append]
    omega), getElem?_drop, length_append]
  congr 1
  omega

theorem readRegion_write {buf : List Byte} (hfits : offset + buf.length ≤ S) (region' : ℕ) :
    (t.write (S * region + offset) buf).readRegion region' =
      if region' = region then splice (t.readRegion region) offset buf
      else t.readRegion region' := by
  apply ext_getElem?
  intro i
  rw [getElem?_readRegion]
  simp only [write]
  by_cases hsame : region' = region
  · subst hsame
    rw [if_pos rfl, getElem?_splice (by rwa [length_readRegion]), getElem?_readRegion]
    by_cases hinside : offset ≤ i ∧ i < offset + buf.length
    · rw [if_pos hinside, if_pos (by omega), if_pos (by omega),
        show S * region' + i - (S * region' + offset) = i - offset by omega,
        getD_eq_getElem?_getD, getElem?_eq_getElem (by omega)]
      rfl
    rw [if_neg hinside]
    by_cases hbelow : S * region' + offset ≤ S * region' + i
    · rw [if_pos hbelow, getD_eq_getElem?_getD, getElem?_eq_none (by omega)]
      rfl
    · rw [if_neg hbelow]
  · rw [if_neg hsame, getElem?_readRegion]
    split_ifs with hi habove
    · -- The region is above the one that is written.
      have hlt : region + 1 ≤ region' := by
        by_contra hle
        have hmul : S * (region' + 1) ≤ S * region := mul_le_mul_left S (by omega)
        rw [mul_succ] at hmul
        omega
      have hmul : S * (region + 1) ≤ S * region' := mul_le_mul_left S hlt
      rw [mul_succ] at hmul
      rw [getD_eq_getElem?_getD, getElem?_eq_none (by omega)]
      rfl
    · rfl
    · rfl

theorem readRegion_eraseRegion (t : TicKV S) (region region' : ℕ) :
    (t.eraseRegion region).readRegion region' =
      if region' = region then replicate S 0xFF
      else t.readRegion region' := by
  have hwrite : (t.write (S * region + 0) (replicate S 0xFF)).readRegion
      region' = _ := readRegion_write (by simp) region'
  refine hwrite.trans ?_
  congr 1
  simp [splice, length_readRegion]

/-! ## The order of the regions -/

def rank (offset : ℤ) : ℕ :=
  if 0 < offset then 2 * offset.natAbs - 1 else 2 * offset.natAbs

def InRange (numRegion region : ℕ) (offset : ℤ) : Prop :=
  0 ≤ region + offset ∧ region + offset < numRegion

theorem InRange.rank_lt {offset : ℤ} (h : InRange n region offset) (hregion : region < n) :
    rank offset < 2 * n := by
  obtain ⟨hlow, hhigh⟩ := h
  unfold rank
  split_ifs
  · omega
  · omega

theorem incrementLoop_some {offset offset' : ℤ} {tooBig tooSmall : Bool}
    (h : incrementLoop n region fuel offset tooBig tooSmall = some offset') :
    InRange n region offset' ∧ rank offset < rank offset' := by
  induction fuel generalizing offset tooBig tooSmall with
  | zero => cases h
  | succ fuel ih =>
    rw [incrementLoop] at h
    split at h
    · simp only at h
      generalize hnext : (if offset = 0 then 1
        else if 0 < offset then -offset else -offset + 1) = next at h
      have hrank : rank next = rank offset + 1 := by
        unfold rank
        split_ifs
        all_goals omega
      split_ifs at h with hbig hsmall
      · obtain ⟨hrange, hlt⟩ := ih h
        exact ⟨hrange, by omega⟩
      · obtain ⟨hrange, hlt⟩ := ih h
        exact ⟨hrange, by omega⟩
      · cases h
        exact ⟨⟨by omega, by omega⟩, by omega⟩
    · cases h

/-- Induction along the order, with fuel that suffices. -/
theorem probe_induction {P : ℕ → ℤ → Prop} (hregion : region < n)
    (hstep : ∀ fuel (offset : ℤ), (region + offset).toNat < n →
      ((region + offset).toNat : ℤ) - region = offset →
      (∀ next, incrementLoop n region (2 * n + 2) offset false false = some next → P fuel next) →
      P (fuel + 1) offset)
    {offset : ℤ} (hrange : InRange n region offset) (hfuel : 2 * n ≤ rank offset + fuel) :
    P fuel offset := by
  induction fuel generalizing offset with
  | zero =>
    have hrank := hrange.rank_lt hregion
    omega
  | succ fuel ih =>
    obtain ⟨hlow, hhigh⟩ := hrange
    refine hstep fuel offset (by omega) (by omega) fun next hnext => ?_
    obtain ⟨hnextRange, hrank⟩ := incrementLoop_some hnext
    exact ih hnextRange (by omega)

/-- The regions in the order in which they are tried, starting at an offset. -/
def probe (n region : ℕ) : ℕ → ℤ → List ℕ
  | 0, _ => []
  | fuel + 1, offset => (region + offset).toNat ::
      match incrementLoop n region (2 * n + 2) offset false false with
      | some offset => probe n region fuel offset
      | none => []

def probeOrder (n : ℕ) (hash : BitVec 64) : List ℕ :=
  probe n (hash.toNat % 0x10000 % n) (2 * n + 1) 0

/-- The regions in the order in which they are tried for a key. -/
abbrev order (t : TicKV S) (hash : BitVec 64) : List ℕ := probeOrder t.numRegion hash

theorem order_congr {t' : TicKV S} (h : t'.numRegion = t.numRegion) (hash : BitVec 64) :
    t'.order hash = t.order hash := by
  rw [order, h]

theorem order_eq_cons (t : TicKV S) (hash : BitVec 64) :
    ∃ rest, t.order hash = [] ++ hash.toNat % 0x10000 % t.numRegion :: rest :=
  ⟨_, rfl⟩

theorem probe_lt {offset : ℤ} (hrange : InRange n region offset)
    (hr : r ∈ probe n region fuel offset) : r < n := by
  induction fuel generalizing offset with
  | zero => cases hr
  | succ fuel ih =>
    rw [probe, mem_cons] at hr
    rcases hr with rfl | hr
    · obtain ⟨hlow, hhigh⟩ := hrange
      omega
    split at hr
    · next hnext => exact ih (incrementLoop_some hnext).1 hr
    · cases hr

theorem order_lt (hn : 0 < t.numRegion) (hr : r ∈ t.order hash) : r < t.numRegion := by
  have hregion := mod_lt (hash.toNat % 0x10000) hn
  exact probe_lt ⟨by omega, by omega⟩ hr

theorem takeWhile_before {before after : List ℕ} (hr : r ∉ before) :
    (before ++ r :: after).takeWhile (· != r) = before := by
  rw [takeWhile_append_of_pos, takeWhile_cons_of_neg, append_nil]
  · simp
  · intro r' hr'
    simpa using ne_of_mem_of_not_mem hr' hr

/-! ## What the store holds -/

/-- The length of the object fits its field. -/
abbrev Storable (value : List Byte) : Prop := headerLength + value.length + checkSumLen < 0xFFF

def Entry.ofValue (hash : BitVec 64) (value : List Byte) (hvalue : Storable value) : Entry where
  live := true
  hash := hash
  body := value ++ checkSumBytes (Crc32.finalise (Crc32.update 0 (packageBytes hash value)))
  checkSumLen_le := by simp [checkSumLen, checkSumBytes]
  length_lt := by
    simp only [List.length_append, checkSumBytes, List.length_map,
      List.length_cons, List.length_nil]
    unfold Storable checkSumLen at hvalue
    omega

theorem Entry.length_ofValue (hash : BitVec 64) {value : List Byte} (hvalue : Storable value) :
    (ofValue hash value hvalue).length = headerLength + value.length + checkSumLen := by
  simp [ofValue, length, checkSumBytes, checkSumLen, add_assoc]

theorem Entry.bytes_of_live (hlive : e.live) :
    e.bytes = headerBytes e.hash (.ofNat 16 e.length) ++ e.body := by
  simp [bytes, len0, len1, hlive, headerBytes, lenBytes]

theorem Entry.bytes_ofValue {value : List Byte} (hvalue : Storable value) :
    (ofValue hash value hvalue).bytes = objectBytes hash value := by
  rw [bytes_of_live rfl, length_ofValue]
  simp [ofValue, objectBytes, packageBytes]

/-- The regions hold the entries, and the live ones are as they were
written. -/
structure Represents (t : TicKV S) (store : ℕ → List Entry) : Prop where
  holds : ∀ r < t.numRegion, Holds S (store r) (t.readRegion r)
  written : ∀ r < t.numRegion, ∀ e ∈ store r, e.live = true →
    ∃ value hvalue, e = .ofValue e.hash value hvalue

/-! ## Looking for a key -/

def search (S : ℕ) (store : ℕ → List Entry) (hash : BitVec 64) : List ℕ → Option (ℕ × ℕ × Entry)
  | [] => none
  | r :: regions =>
    match findIn hash 0 (store r) with
    | some (offset, e) => some (r, offset, e)
    | none =>
      if continues S (store r) then search S store hash regions else none

theorem locateLoop_eq (h : ∀ r < t.numRegion, Holds S (store r) (t.readRegion r))
    (hbuf : t.readBuffer) (hregion : region < t.numRegion) {offset : ℤ}
    (hrange : InRange t.numRegion region offset) (hfuel : 2 * t.numRegion ≤ rank offset + fuel) :
    t.locateLoop hash region fuel offset =
      match search S store hash (probe t.numRegion region fuel offset) with
      | some (r, o, e) => .ok (.ok (r, o, e.length))
      | none => .ok (.error .keyNotFound) := by
  apply probe_induction hregion _ hrange hfuel
  intro fuel offset hr hback ih
  rw [locateLoop, probe, search]
  simp only [hbuf, (h _ hr).findKeyOffset_eq, hback, incrementRegionOffset]
  cases findIn hash 0 (store (region + offset).toNat) with
  | some found => rfl
  | none =>
    cases hcont : continues S (store (region + offset).toNat) with
    | false => rfl
    | true =>
      cases hnext : incrementLoop t.numRegion region (2 * t.numRegion + 2) offset false false with
      | none => rfl
      | some next => exact ih next hnext

/-- The keys that do not make `get_region` panic. -/
def ValidHash (hash : BitVec 64) : Prop :=
  ¬ (hash = 0xFFFFFFFFFFFFFFFF ∨ hash = 0)

theorem locate_eq (h : ∀ r < t.numRegion, Holds S (store r) (t.readRegion r))
    (hbuf : t.readBuffer) (hn : 0 < t.numRegion) (hhash : ValidHash hash) :
    t.locate hash =
      match search S store hash (t.order hash) with
      | some (r, o, e) => .ok (.ok (r, o, e.length))
      | none => .ok (.error .keyNotFound) := by
  have hregion := mod_lt (hash.toNat % 0x10000) hn
  unfold locate getRegion
  rw [if_neg hhash, if_neg hn.ne']
  exact locateLoop_eq h hbuf hregion ⟨by omega, by omega⟩ (by omega)

theorem locate_ok {result : Except ErrorCode (ℕ × ℕ × ℕ)} (h : t.locate hash = .ok result) :
    ValidHash hash ∧ t.readBuffer := by
  unfold locate getRegion at h
  by_cases hhash : hash = 0xFFFFFFFFFFFFFFFF ∨ hash = 0
  · rw [if_pos hhash] at h
    cases h
  split at h
  · cases h
  simp only [locateLoop] at h
  refine ⟨hhash, ?_⟩
  by_contra hbuf
  rw [Bool.not_eq_true] at hbuf
  simp [hbuf] at h

theorem search_split {regions : List ℕ} (h : search S store hash regions = some (r, offset, e)) :
    ∃ before after, regions = before ++ r :: after ∧ findIn hash 0 (store r) = some (offset, e) ∧
      ∀ r' ∈ before, findIn hash 0 (store r') = none ∧ continues S (store r') := by
  induction regions with
  | nil => cases h
  | cons r' regions ih =>
    rw [search] at h
    split at h
    · next hfound =>
        cases h
        exact ⟨[], regions, rfl, hfound, fun _ hmem => nomatch hmem⟩
    next hnone =>
    split_ifs at h with hcont
    obtain ⟨before, after, rfl, hfound, hbefore⟩ := ih h
    refine ⟨r' :: before, after, rfl, hfound, fun r'' hmem => ?_⟩
    rcases mem_cons.mp hmem with rfl | hmem
    · exact ⟨hnone, hcont⟩
    · exact hbefore r'' hmem

theorem search_before {before after : List ℕ}
    (hbefore : ∀ r' ∈ before, findIn hash 0 (store r') = none)
    (hfound : findIn hash 0 (store r) = some (offset, e)) :
    search S store hash (before ++ r :: after) =
      if ∀ r' ∈ before, continues S (store r') then some (r, offset, e)
      else none := by
  induction before with
  | nil => simp [search, hfound]
  | cons r' before ih =>
    rw [cons_append, search, hbefore r' (by simp)]
    rw [ih fun r'' hr'' => hbefore r'' (by simp [hr''])]
    by_cases hcont : continues S (store r')
    all_goals simp [hcont]

/-! ## Reading a value -/

theorem take_drop_at (pre xs post : List Byte) :
    ((pre ++ xs ++ post).drop pre.length).take xs.length = xs := by
  rw [append_assoc, drop_left, take_left]

theorem getValue_entry {before after : List Entry} {value checkSum : List Byte}
    (h : Holds S (before ++ e :: after) regionData) (hlive : e.live)
    (hbody : e.body = value ++ checkSum)
    (hcheckSum : checkSum.length = checkSumLen) (buf : List Byte) :
    t.getValue buf regionData (used before) e.length =
      if buf.length < value.length then
        .ok ((.error (.bufferTooSmall value.length), value.take buf.length), t)
      else if checkSum ≠ checkSumBytes (Crc32.finalise
          (Crc32.update 0 (packageBytes e.hash value))) then
        .ok ((.error .invalidCheckSum, value ++ buf.drop value.length), t)
      else
        .ok ((.ok (.complete, value.length), value ++ buf.drop value.length), t) := by
  -- The region around the header, the value and the checksum of the entry.
  let header := headerBytes e.hash (.ofNat 16 (headerLength + value.length + checkSumLen))
  have helength : e.length = headerLength + value.length + checkSumLen := by
    rw [length, hbody, length_append, hcheckSum, add_assoc]
  obtain ⟨post, hregion⟩ : ∃ post, regionData =
      image before ++ header ++ value ++ checkSum ++ post := by
    have himage : image (before ++ e :: after) =
        image before ++ e.bytes ++ image after := by simp [image]
    rw [h.eq, himage, bytes_of_live hlive, hbody, helength]
    simp [header]
  have hheader : header.length = headerLength := rfl
  have hused : (image before).length = used before := rfl
  have hlength : regionData.length = used before + headerLength +
      value.length + checkSumLen + post.length := by
    simp only [hregion, length_append, hheader, hcheckSum, hused]
  have hdropHeader : (regionData.drop (used before)).take headerLength = header := by
    rw [hregion, append_assoc, append_assoc, ← hheader]
    exact take_drop_at _ _ _
  have hdropValue : regionData.drop (used before + headerLength) = value ++ (checkSum ++ post) := by
    rw [hregion, ← hused, ← hheader, ← length_append, append_assoc, append_assoc, drop_left]
  have hdropCheckSum : (regionData.drop (used before + (headerLength +
      value.length + checkSumLen) - checkSumLen)).take checkSumLen = checkSum := by
    rw [hregion, show used before + (headerLength + value.length + checkSumLen) - checkSumLen =
        (image before ++ header ++ value).length by
          simp only [length_append]
          omega, ← hcheckSum]
    exact take_drop_at _ _ _
  have hupdate : Crc32.update (Crc32.update 0 header) value =
      Crc32.update 0 (packageBytes e.hash value) :=
    (foldl_append ..).symm
  rw [helength, getValue, if_neg (by omega), if_neg (by omega)]
  simp only [hdropHeader, hdropValue]
  rw [show headerLength + value.length + checkSumLen - headerLength -
    checkSumLen = value.length by omega]
  by_cases hsmall : buf.length < value.length
  · have hcopied : (value ++ (checkSum ++ post)).take buf.length =
        value.take buf.length := take_append_of_le_length hsmall.le
    have hlen : (value.take buf.length).length = buf.length := by
      rw [length_take]
      omega
    rw [if_pos hsmall, if_pos hsmall, hcopied, hlen, if_neg (by omega), drop_length, append_nil]
  · rw [if_neg hsmall, if_neg hsmall, take_left, if_neg (by omega),
      if_neg (by omega), hupdate, hdropCheckSum]

theorem getValue_ofValue {before after : List Entry} {value : List Byte} {hvalue : Storable value}
    (h : Holds S (before ++ .ofValue hash value hvalue :: after) regionData) (buf : List Byte) :
    t.getValue buf regionData (used before) (ofValue hash value hvalue).length =
      if buf.length < value.length then
        .ok ((.error (.bufferTooSmall value.length), value.take buf.length), t)
      else
        .ok ((.ok (.complete, value.length), value ++ buf.drop value.length), t) := by
  rw [getValue_entry h rfl rfl rfl]
  simp [ofValue]

def Entry.value (e : Entry) : List Byte :=
  e.body.take (e.body.length - checkSumLen)

theorem Entry.value_ofValue {value : List Byte} (hvalue : Storable value) :
    (ofValue hash value hvalue).value = value := by
  simp [Entry.value, ofValue, checkSumBytes, checkSumLen]

def lookup (S n : ℕ) (store : ℕ → List Entry) (hash : BitVec 64) : Option (List Byte) :=
  (search S store hash (probeOrder n hash)).map fun found => found.2.2.value

/-- What `get_key` returns, and leaves in the buffer of the caller. -/
def readResult (buf : List Byte) :
    Option (List Byte) → Except ErrorCode (SuccessCode × ℕ) × List Byte
  | none => (.error .keyNotFound, buf)
  | some value =>
    if buf.length < value.length then
      (.error (.bufferTooSmall value.length), value.take buf.length)
    else
      (.ok (.complete, value.length), value ++ buf.drop value.length)

section

variable {store : ℕ → List Entry} {hash : BitVec 64}

structure Located (t : TicKV S) (store : ℕ → List Entry) (hash : BitVec 64)
    (r : ℕ) (before : List Entry) (e : Entry) (after : List Entry) : Prop where
  lt : r < t.numRegion
  split : store r = before ++ e :: after
  live : e.live = true
  hash_eq : e.hash = hash

variable {r : ℕ} {e : Entry} {t' : TicKV S} {before : List Entry} {e' : Entry}
  {value : List Byte}

theorem search_located (hn : 0 < t.numRegion) {offset : ℕ}
    (hsearch : search S store hash (t.order hash) = some (r, offset, e)) :
    ∃ before after, offset = used before ∧ Located t store hash r before e after := by
  obtain ⟨_, _, horder, hfound, -⟩ := search_split hsearch
  have hmem : r ∈ t.order hash := by simp [horder]
  obtain ⟨before, after, hsplit, hoffset, hlive, hhash⟩ := findIn_eq_some hfound
  rw [zero_add] at hoffset
  exact ⟨before, after, hoffset, order_lt hn hmem, hsplit, hlive, hhash⟩

theorem getKey_search (h : ∀ r < t.numRegion, Holds S (store r) (t.readRegion r))
    (hbuf : t.readBuffer) (hn : 0 < t.numRegion) (hhash : ValidHash hash) (buf : List Byte) :
    t.getKey hash buf =
      match search S store hash (t.order hash) with
      | some (r, o, e) => t.getValue buf (t.readRegion r) o e.length
      | none => .ok ((.error .keyNotFound, buf), t) := by
  unfold getKey
  rw [locate_eq h hbuf hn hhash]
  cases search S store hash (t.order hash) with
  | none => rfl
  | some found => rfl

theorem getKey_eq (h : t.Represents store) (hbuf : t.readBuffer)
    (hn : 0 < t.numRegion) (hhash : ValidHash hash) (buf : List Byte) : t.getKey hash buf =
      .ok (readResult buf (lookup S t.numRegion store hash), t) := by
  rw [getKey_search h.holds hbuf hn hhash, lookup]
  cases hsearch : search S store hash (t.order hash) with
  | none => rfl
  | some found =>
    obtain ⟨r, _, e⟩ := found
    obtain ⟨_, _, rfl, hlocated⟩ := search_located hn hsearch
    have hholds := h.holds r hlocated.lt
    obtain ⟨_, hvalue, hentry⟩ := h.written r hlocated.lt e
      (by rw [hlocated.split]; simp) hlocated.live
    rw [hlocated.split, hentry] at hholds
    simp only [Option.map_some]
    rw [hentry, getValue_ofValue hholds, value_ofValue, readResult]
    split_ifs <;> rfl

/-! ## Changing a region -/

theorem Represents.update (h : t.Represents store) {entries : List Entry}
    (hsize : t'.flashSize = t.flashSize) (hholds : Holds S entries (t'.readRegion r))
    (hother : ∀ r' ≠ r, t'.readRegion r' = t.readRegion r')
    (hwritten : ∀ e ∈ entries, e.live → e ∈ store r ∨
      ∃ value hvalue, e = .ofValue e.hash value hvalue)
    (hr : r < t.numRegion) : t'.Represents (update store r entries) := by
  have hn : t'.numRegion = t.numRegion := by
    unfold numRegion
    rw [hsize]
  refine ⟨fun r' hr' => ?_, fun r' hr' e he hlive => ?_⟩
  · rw [hn] at hr'
    by_cases hsame : r' = r
    · subst hsame
      rw [update_self]
      exact hholds
    · rw [update_of_ne hsame, hother r' hsame]
      exact h.holds r' hr'
  · rw [hn] at hr'
    by_cases hsame : r' = r
    · subst hsame
      rw [update_self] at he
      rcases hwritten e he hlive with hold | hnew
      · exact h.written r' hr' e hold hlive
      · exact hnew
    · rw [update_of_ne hsame] at he
      exact h.written r' hr' e he hlive

section

variable {after : List Entry} (h : t.Represents store)
  (hlocated : Located t store hash r before e after)
include h hlocated

theorem Represents.replace (hdead : e'.live = false) (hlength : e'.length = e.length)
    (hsize : t'.flashSize = t.flashSize)
    (hread : ∀ r', t'.readRegion r' = if r' =
      r then splice (t.readRegion r) (used before) e'.bytes else t.readRegion r') :
    t'.Represents (Function.update store r (before ++ e' :: after)) := by
  have hholds := h.holds r hlocated.lt
  rw [hlocated.split] at hholds
  refine h.update hsize ?_ (fun r' hne => ?_) (fun e'' he'' hlive => ?_) hlocated.lt
  · rw [hread, if_pos rfl]
    exact hholds.replace hlength
  · rw [hread, if_neg hne]
  · left
    rw [hlocated.split]
    simp only [mem_append, mem_cons] at he'' ⊢
    rcases he'' with hmem | rfl | hmem
    · exact .inl hmem
    · exact absurd (hdead.symm.trans hlive) (by decide)
    · exact .inr (.inr hmem)

theorem Represents.readRegion_eq :
    ∃ post, t.readRegion r = image before ++ e.bytes ++ post ∧ used before + e.length ≤ S := by
  have hholds := h.holds r hlocated.lt
  have himage : image (before ++ e :: after) =
      image before ++ e.bytes ++ image after := by simp [image]
  rw [hlocated.split] at hholds
  refine ⟨image after ++ replicate (S - (image (before ++ e :: after)).length) 0xFF, ?_, ?_⟩
  · rw [hholds.eq, himage]
    simp
  · have hfits := hholds.fits
    rw [himage, length_append, length_append, e.length_bytes] at hfits
    unfold used
    omega

end

theorem len0_of_dead (hlive : e.live) (hdead : e'.live = false)
    (hlen : e'.length = e.length) : e'.len0 = e.len0 &&& ~~~0x80 := by
  unfold len0
  rw [hlen, hlive, hdead]
  rfl

structure Changed (t t' : TicKV S) (store : ℕ → List Entry) : Prop where
  buffer : t'.readBuffer = true
  size : t'.flashSize = t.flashSize
  represents : t'.Represents store

theorem Changed.numRegion_eq (h : Changed t t' store) : t'.numRegion = t.numRegion := by
  unfold numRegion
  rw [h.size]

theorem splice_len0 {pre post : List Byte} (hbytes : e'.bytes.drop 2 = e.bytes.drop 2) :
    splice (pre ++ e.bytes ++ post) (pre.length + lenOffset) [e'.len0] =
      pre ++ e'.bytes ++ post := by
  have he : ∀ e : Entry, pre ++ e.bytes ++ post =
      pre ++ [version] ++ [e.len0] ++ (e.bytes.drop 2 ++ post) := by
    simp [bytes]
  rw [he e, he e', hbytes, show pre.length + lenOffset =
    (pre ++ [version]).length by simp [lenOffset]]
  exact splice_at rfl

theorem invalidateKey_outcome (h : t.Represents store)
    (hbuf : t.readBuffer) (hn : 0 < t.numRegion) (hhash : ValidHash hash) :
    (search S store hash (t.order hash) = none ∧
      t.invalidateKey hash = .ok (.error .keyNotFound, t)) ∨ ∃ r before e after t',
      search S store hash (t.order hash) = some (r, used before, e) ∧
      Located t store hash r before e after ∧ t.invalidateKey hash = .ok (.ok .written, t') ∧
      Changed t t' (Function.update store r (before ++ e.invalidate :: after)) := by
  unfold invalidateKey
  rw [locate_eq h.holds hbuf hn hhash]
  cases hsearch : search S store hash (t.order hash) with
  | none => exact .inl ⟨rfl, rfl⟩
  | some found =>
    obtain ⟨r, _, e⟩ := found
    obtain ⟨before, after, rfl, hlocated⟩ := search_located hn hsearch
    obtain ⟨_, hregion, hfits⟩ := h.readRegion_eq hlocated
    have hlen := e.headerLength_lt_length
    have hlen0 : (t.readRegion r)[used before + lenOffset]? = some e.len0 := by
      rw [hregion]
      exact getElem?_at rfl
    refine .inr ⟨r, before, e, after, t.write (S * r + used before +
      lenOffset) [e.len0 &&& ~~~0x80], rfl, hlocated, ?_, hbuf, rfl,
      h.replace hlocated (show e.invalidate.live = false from rfl) rfl rfl fun r' => ?_⟩
    · simp [hlen0]
    · have hinside : used before + lenOffset + [e.invalidate.len0].length ≤ S := by
        simp only [length_singleton, lenOffset]
        unfold headerLength at hlen
        omega
      rw [add_assoc, ← len0_of_dead hlocated.live (show e.invalidate.live = false from rfl) rfl,
        readRegion_write hinside, hregion]
      change (if r' = r then splice _ ((image before).length + lenOffset) _
        else _) = if r' = r then splice _ (image before).length _ else _
      rw [splice_len0 (show e.invalidate.bytes.drop 2 = e.bytes.drop 2 from
        rfl), splice_at (by
          rfl)]

theorem Entry.length_zeroise (e : Entry) : e.zeroise.length = e.length := by
  simp [zeroise, length]

theorem zeroise_bytes (hlive : e.live) {post : List Byte} :
    (((image before ++ e.bytes ++ post).set (used before + lenOffset)
        (e.len0 &&& ~~~0x80)).drop (used before)).take headerLength ++
      replicate (e.length - headerLength) 0 = e.zeroise.bytes := by
  have hset : (image before ++ e.bytes ++ post).set (used before + lenOffset)
      (e.len0 &&& ~~~0x80) = image before ++ (version :: (e.len0 &&& ~~~0x80) ::
        e.len1 :: (hashBytes e.hash ++ e.body)) ++ post := by
    change (image before ++ e.bytes ++ post).set ((image before).length + lenOffset) _ = _
    rw [append_assoc, set_append_right _ _ (Nat.le_add_right ..),
      Nat.add_sub_cancel_left, append_assoc]
    rfl
  have hlen1 : e.zeroise.len1 = e.len1 := by
    unfold len1
    rw [e.length_zeroise]
  rw [hset, show used before = (image before).length from
    rfl, ← len0_of_dead hlive rfl e.length_zeroise, ← hlen1]
  simp [bytes, zeroise, length, headerLength, hashOffset, hashBytes]

theorem zeroiseKey_outcome (h : t.Represents store)
    (hbuf : t.readBuffer) (hn : 0 < t.numRegion) (hhash : ValidHash hash) :
    (search S store hash (t.order hash) = none ∧
      t.zeroiseKey hash = .ok (.error .keyNotFound, t)) ∨ ∃ r before e after,
      search S store hash (t.order hash) = some (r, used before, e) ∧
      Located t store hash r before e after ∧ (S < used before + e.length + headerLength ∧
          t.zeroiseKey hash = .ok (.error .regionFull, t.loseBuffer) ∨
        used before + e.length + headerLength ≤ S ∧ ∃ t',
          t.zeroiseKey hash = .ok (.ok .written, t') ∧ Changed t t'
            (Function.update store r (before ++ e.zeroise :: after))) := by
  unfold zeroiseKey
  rw [locate_eq h.holds hbuf hn hhash]
  cases hsearch : search S store hash (t.order hash) with
  | none => exact .inl ⟨rfl, rfl⟩
  | some found =>
    obtain ⟨r, _, e⟩ := found
    obtain ⟨before, after, rfl, hlocated⟩ := search_located hn hsearch
    obtain ⟨_, hregion, hfits⟩ := h.readRegion_eq hlocated
    have hlen0 : (t.readRegion r)[used before + lenOffset]? = some e.len0 := by
      rw [hregion]
      exact getElem?_at rfl
    refine .inr ⟨r, before, e, after, rfl, hlocated, ?_⟩
    simp only [hlen0, length_readRegion]
    by_cases hend : S < used before + e.length + headerLength
    · rw [if_pos hend]
      exact .inl ⟨hend, rfl⟩
    rw [if_neg hend]
    refine .inr ⟨by omega, _, rfl, hbuf, rfl,
      h.replace hlocated rfl e.length_zeroise rfl fun r' => ?_⟩
    have hinside : used before + e.zeroise.bytes.length ≤ S := by
      rw [length_bytes, e.length_zeroise]
      exact hfits
    nth_rewrite 1 [hregion]
    rw [zeroise_bytes hlocated.live, ← e.length_zeroise, ← e.zeroise.length_bytes, take_length]
    exact readRegion_write hinside r'

/-! ## Appending -/

/-- Where `append_key` puts an object: in the first region of the order with
room for it, unless it comes upon its key before. -/
inductive Placement where
  | found
  | full
  | inRegion (r : ℕ)
  deriving DecidableEq

def place (S : ℕ) (store : ℕ → List Entry) (hash : BitVec 64)
    (packageLength : ℕ) : List ℕ → Placement
  | [] => .full
  | r :: regions =>
    match findIn hash 0 (store r) with
    | some _ => .found
    | none =>
      if S ≤ used (store r) + packageLength then
        place S store hash packageLength regions
      else
        .inRegion r

/-- The result of `append_key` for a placement. -/
def appendResult (t : TicKV S) (store : ℕ → List Entry) (hash : BitVec 64)
    (value : List Byte) : Placement → Result S (Except ErrorCode SuccessCode)
  | .found => .ok (.error .keyAlreadyExists, t)
  | .full => .ok (.error .flashFull, t)
  | .inRegion r =>
    if S < used (store r) + (headerLength + value.length) + checkSumLen then
      .ok (.error .objectTooLarge, t.loseBuffer)
    else
      .ok (.ok .written, t.write (S * r + used (store r)) (objectBytes hash value))

theorem appendLoop_eq (h : t.Represents store) (hbuf : t.readBuffer)
    {region : ℕ} (hregion : region < t.numRegion) {fuel : ℕ} {offset : ℤ}
    (hrange : InRange t.numRegion region offset) (hfuel : 2 * t.numRegion ≤ rank offset + fuel) :
    t.appendLoop hash value region fuel offset = appendResult t store hash value (place S store hash
        (headerLength + value.length) (probe t.numRegion region fuel offset)) := by
  apply probe_induction hregion _ hrange hfuel
  intro fuel offset hr hback ih
  rw [appendLoop, probe, place]
  simp only [hbuf, Bool.not_true, Bool.false_eq_true, if_false, (h.holds _ hr).findKeyOffset_eq,
    (h.holds _ hr).appendScan_eq (Nat.le_add_right ..), hback, incrementRegionOffset]
  cases findIn hash 0 (store (region + offset).toNat) with
  | some found => rfl
  | none =>
    split_ifs
    · cases hnext : incrementLoop t.numRegion region (2 * t.numRegion + 2) offset false false with
      | none => rfl
      | some next => exact ih next hnext
    · rfl

theorem appendKey_eq (h : t.Represents store) (hbuf : t.readBuffer) (hn : 0 < t.numRegion)
    (hhash : ValidHash hash) (hvalue : Storable value) :
    t.appendKey hash value = appendResult t store hash value
      (place S store hash (headerLength + value.length) (t.order hash)) := by
  have hregion := mod_lt (hash.toNat % 0x10000) hn
  unfold appendKey getRegion
  rw [if_neg hhash, if_neg hn.ne']
  simp only
  rw [if_neg (by omega), if_neg (by omega)]
  exact appendLoop_eq h hbuf hregion ⟨by omega, by omega⟩ (by omega)

theorem place_inRegion {packageLength : ℕ} {regions : List ℕ}
    (h : place S store hash packageLength regions = .inRegion r) :
    ∃ before after, regions = before ++ r :: after ∧ used (store r) + packageLength < S ∧
      (∀ r' ∈ before, S ≤ used (store r') + packageLength) ∧
      ∀ r' ∈ r :: before, findIn hash 0 (store r') = none := by
  induction regions with
  | nil => cases h
  | cons r' regions ih =>
    rw [place] at h
    split at h
    · cases h
    next hnone =>
    split_ifs at h with hfull
    · obtain ⟨before, after, rfl, hroom, hbefore, hnew⟩ := ih h
      refine ⟨r' :: before, after, rfl, hroom, ?_, ?_⟩
      · intro r'' hmem
        rcases mem_cons.mp hmem with rfl | hmem
        · exact hfull
        · exact hbefore r'' hmem
      · intro r'' hmem
        rcases mem_cons.mp hmem with rfl | hmem
        · exact hnew r'' mem_cons_self
        rcases mem_cons.mp hmem with rfl | hmem
        · exact hnone
        · exact hnew r'' (mem_cons_of_mem _ hmem)
    · cases h
      refine ⟨[], regions, rfl, by omega, fun _ hmem => ?_, ?_⟩
      · cases hmem
      · intro r'' hmem
        rw [mem_singleton.mp hmem]
        exact hnone

theorem Represents.append (h : t.Represents store) (hbuffer : t.readBuffer) (hr : r < t.numRegion)
    (hvalue : Storable value)
    (hroom : used (store r) + (headerLength + value.length) + checkSumLen ≤ S) :
    Changed t (t.write (S * r + used (store r)) (objectBytes hash value)) (Function.update store r
        (store r ++ [.ofValue hash value hvalue])) := by
  have hlen := length_ofValue hash hvalue
  have hinside : used (store r) + (objectBytes hash value).length ≤ S := by
    rw [← bytes_ofValue hvalue, length_bytes]
    omega
  refine ⟨hbuffer, rfl, h.update rfl ?_ (fun r' hne => ?_) (fun e he _ => ?_) hr⟩
  · rw [readRegion_write hinside, if_pos rfl, ← bytes_ofValue hvalue]
    exact (h.holds r hr).append (by omega)
  · rw [readRegion_write hinside, if_neg hne]
  · rcases mem_append.mp he with hold | hnew
    · exact .inl hold
    · rw [mem_singleton.mp hnew]
      exact .inr ⟨value, hvalue, rfl⟩

/-! ## Garbage collection -/

def collected (store : ℕ → List Entry) (regions : List ℕ) (r : ℕ) : List Entry :=
  if r ∈ regions ∧ erasable (store r) = true then [] else store r

theorem garbageCollectRegion_outcome (h : t.Represents store)
    (hbuf : t.readBuffer) (hpos : 0 < S) (hr : r < t.numRegion) :
    ∃ freed t', t.garbageCollectRegion r = .ok (.ok freed, t') ∧
      Changed t t' (collected store [r]) := by
  unfold garbageCollectRegion
  rw [hbuf, (h.holds r hr).collectScan_eq hpos]
  by_cases herase : erasable (store r)
  · rw [if_pos herase]
    refine ⟨S, _, rfl, hbuf, rfl, ?_⟩
    have hstore : collected store [r] = update store r [] := by
      funext r'
      by_cases hsame : r' = r
      · subst hsame
        simp [collected, herase]
      · simp [collected, hsame]
    rw [hstore]
    refine h.update rfl ?_ (fun r' hne => ?_) (fun e he => ?_) hr
    · rw [readRegion_eraseRegion, if_pos rfl]
      exact Holds.erased
    · rw [readRegion_eraseRegion, if_neg hne]
    · cases he
  · rw [if_neg herase]
    have hstore : collected store [r] = store := by
      funext r'
      unfold collected
      rw [if_neg]
      rintro ⟨hmem, herase'⟩
      rw [mem_singleton.mp hmem] at herase'
      exact herase herase'
    rw [hstore]
    exact ⟨0, t, rfl, hbuf, rfl, h⟩

theorem collected_cons (store : ℕ → List Entry) (r : ℕ) (regions : List ℕ) :
    collected (collected store [r]) regions = collected store (r :: regions) := by
  funext r'
  unfold collected
  by_cases hsame : r' = r
  · subst hsame
    cases herase : erasable (store r') <;> simp [herase]
  · simp [hsame]

theorem collectLoop_outcome (h : t.Represents store) (hbuf : t.readBuffer) (hpos : 0 < S)
    {regions : List ℕ} (hregions : ∀ r ∈ regions, r < t.numRegion) (flashFreed : ℕ) :
    ∃ freed t', t.collectLoop regions flashFreed = .ok (.ok freed, t') ∧
      Changed t t' (collected store regions) := by
  induction regions generalizing t store flashFreed with
  | nil =>
    refine ⟨flashFreed, t, rfl, hbuf, rfl, ?_⟩
    have hstore : collected store [] = store := by
      funext r
      simp [collected]
    rwa [hstore]
  | cons r regions ih =>
    obtain ⟨freed, _, hcollect, hchanged⟩ := garbageCollectRegion_outcome h
      hbuf hpos (hregions r mem_cons_self)
    have hn := hchanged.numRegion_eq
    obtain ⟨freed', t2, hrest, hchanged'⟩ := ih hchanged.represents
      hchanged.buffer (fun r' hmem => by
        rw [hn]
        exact hregions r' (mem_cons_of_mem _ hmem)) (flashFreed + freed)
    rw [collected_cons] at hchanged'
    refine ⟨freed', t2, ?_, hchanged'.buffer,
      hchanged'.size.trans hchanged.size, hchanged'.represents⟩
    rw [collectLoop, hcollect]
    exact hrest

theorem garbageCollect_outcome (h : t.Represents store) (hbuf : t.readBuffer) (hpos : 0 < S) :
    ∃ freed t', t.garbageCollect = .ok (.ok freed, t') ∧
      Changed t t' (collected store (range t.numRegion)) := by
  rw [garbageCollect, if_neg hpos.ne']
  exact collectLoop_outcome h hbuf hpos (fun _ hmem => mem_range.mp hmem) 0

/-! ## Setting up -/

theorem eraseRegions_fields (t : TicKV S) (regions : List ℕ) :
    (regions.foldl eraseRegion t).flashSize = t.flashSize ∧
      (regions.foldl eraseRegion t).readBuffer = t.readBuffer ∧
      ∀ r, (regions.foldl eraseRegion t).readRegion r =
        if r ∈ regions then replicate S 0xFF else t.readRegion r := by
  induction regions generalizing t with
  | nil => exact ⟨rfl, rfl, fun r => rfl⟩
  | cons r regions ih =>
    obtain ⟨hsize, hbuf, hread⟩ := ih (t.eraseRegion r)
    refine ⟨hsize, hbuf, fun r' => ?_⟩
    rw [foldl_cons, hread, readRegion_eraseRegion]
    by_cases hmem : r' ∈ regions
    · simp [hmem]
    · simp [hmem]

theorem eraseAll_represents (t : TicKV S) : t.eraseAll.Represents fun _ => [] := by
  obtain ⟨hsize, -, hread⟩ := eraseRegions_fields t (range t.numRegion)
  have hn : t.eraseAll.numRegion = t.numRegion := by
    unfold numRegion eraseAll
    rw [hsize]
  refine ⟨fun r hr => ?_, fun r _ e he => ?_⟩
  · unfold eraseAll
    rw [hread, if_pos (by rwa [mem_range, ← hn])]
    exact Holds.erased
  · cases he

theorem getKey_ok {buf buf' : List Byte} {result : Except ErrorCode (SuccessCode × ℕ)}
    (h : t.getKey hash buf = .ok ((result, buf'), t')) :
    t'.flashSize = t.flashSize ∧ ∀ code length, result = .ok (code, length) → code = .complete := by
  have hvalue : ∀ regionData offset length,
      t.getValue buf regionData offset length = .ok ((result, buf'), t') →
      t'.flashSize = t.flashSize ∧
        ∀ code length, result = .ok (code, length) → code = .complete := by
    intro regionData offset length h
    unfold getValue at h
    simp only at h
    split_ifs at h
    all_goals
      cases h
      refine ⟨rfl, fun code length heq => ?_⟩
      cases heq
    rfl
  unfold getKey at h
  split at h
  · cases h
  · cases h
    exact ⟨rfl, fun _ _ heq => nomatch heq⟩
  · exact hvalue _ _ _ h

theorem appendKey_ok {result : Except ErrorCode SuccessCode} (hvalue : Storable value)
    (h : t.appendKey hash value = .ok (result, t')) : ValidHash hash ∧ t.readBuffer := by
  unfold appendKey getRegion at h
  by_cases hhash : hash = 0xFFFFFFFFFFFFFFFF ∨ hash = 0
  · rw [if_pos hhash] at h
    cases h
  split at h
  · cases h
  next hregion =>
  split at hregion
  · cases hregion
  rw [if_neg (by omega), appendLoop] at h
  refine ⟨hhash, ?_⟩
  by_contra hbuf
  rw [Bool.not_eq_true] at hbuf
  simp [hbuf] at h

theorem initialise_written {mainKey : BitVec 64} (hn : 0 < t.numRegion)
    (h : t.initialise mainKey = .ok (.ok .written, t')) :
    ValidHash mainKey ∧ headerLength + checkSumLen ≤ S ∧ ∃ erased, Changed t erased (fun _ => []) ∧
        Changed erased t' (Function.update (fun _ => []) (mainKey.toNat % 0x10000 % t.numRegion)
          [.ofValue mainKey [] (by decide)]) := by
  unfold initialise at h
  split at h
  · cases h
  · next ret length buf t1 hget =>
      have hret := (getKey_ok hget).2 ret length rfl
      cases h
      cases hret
  next e buf t1 hget =>
  have hsize := (getKey_ok hget).1
  obtain ⟨hsize', -, -⟩ := eraseRegions_fields t1 (range t1.numRegion)
  obtain ⟨hhash, hbuf⟩ := appendKey_ok (by decide) h
  have hn' : t1.eraseAll.numRegion = t.numRegion := by
    unfold numRegion eraseAll
    rw [hsize', hsize]
  have herased := eraseAll_represents t1
  rw [appendKey_eq herased hbuf (by rw [hn']; exact hn) hhash (by decide), order_congr hn'] at h
  cases hplace : place S (fun _ => []) mainKey (headerLength + 0) (t.order mainKey) with
  | found | full =>
    rw [length_nil, hplace] at h
    cases h
  | inRegion r =>
    obtain ⟨before, _, horder, hroom, hbefore, -⟩ := place_inRegion hplace
    -- The home region is empty, so that nothing comes before it.
    have hhome : before = [] := by
      refine eq_nil_iff_forall_not_mem.mpr fun r' hr' => ?_
      exact absurd (hbefore r' hr') (not_le.mpr hroom)
    have hr : r = mainKey.toNat % 0x10000 % t.numRegion := by
      rw [hhome] at horder
      exact (cons.inj horder).1.symm
    rw [length_nil, hplace, appendResult] at h
    split_ifs at h with htooLarge
    · cases h
    cases h
    have hfits := not_lt.mp htooLarge
    have hchanged : Changed t1.eraseAll (t1.eraseAll.write (S * r + 0)
        (objectBytes mainKey [])) (Function.update (fun _ => []) r
          [.ofValue mainKey [] (by decide)]) :=
      herased.append hbuf (by rw [hn', hr]; exact mod_lt _ hn) (by decide) hfits
    rw [← hr]
    refine ⟨hhash, ?_, t1.eraseAll, ⟨hbuf, hsize'.trans hsize, herased⟩, hchanged⟩
    omega

end

end TockKernel.TicKV

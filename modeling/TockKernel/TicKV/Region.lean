import TockKernel.TicKV.Model

/-!
# What a region of the store holds

A region is a list of entries followed by erased flash. The loops of TicKV
over the bytes of such a region are walks along that list.
-/

namespace TockKernel.TicKV

open List Nat

structure Entry where
  live : Bool
  hash : BitVec 64
  body : List Byte
  checkSumLen_le : checkSumLen ≤ body.length
  length_lt : headerLength + body.length < 0xFFF

namespace Entry

def length (e : Entry) : ℕ := headerLength + e.body.length

def len0 (e : Entry) : Byte :=
  let byte := ((BitVec.ofNat 16 e.length >>> 8).setWidth 8 &&& 0x0F) |||
    ((flagsValid <<< 4) &&& 0xF0)
  if e.live then byte else byte &&& ~~~0x80

def len1 (e : Entry) : Byte := (BitVec.ofNat 16 e.length).setWidth 8

def bytes (e : Entry) : List Byte :=
  version :: e.len0 :: e.len1 :: (hashBytes e.hash ++ e.body)

def invalidate (e : Entry) : Entry := { e with live := false }

def zeroise (e : Entry) : Entry where
  live := false
  hash := e.hash
  body := List.replicate e.body.length 0
  checkSumLen_le := by simpa using e.checkSumLen_le
  length_lt := by simpa using e.length_lt

end Entry

/-! ## Bytes of the header -/

theorem eq_of_bytes {x y : BitVec w} (hw : w ≤ 8 * n)
    (h : ∀ k < n, (x >>> (8 * k)).setWidth 8 = (y >>> (8 * k)).setWidth 8) : x = y := by
  refine BitVec.eq_of_getLsbD_eq fun i hi => ?_
  have hbit := congrArg (fun byte => BitVec.getLsbD byte (i % 8)) (h (i / 8) (by omega))
  simp only [BitVec.getLsbD_setWidth, BitVec.getLsbD_ushiftRight] at hbit
  rw [div_add_mod] at hbit
  simpa [mod_lt i (by decide : 8 > 0)] using hbit

theorem hashBytes_injective : Function.Injective hashBytes := by
  intro hash hash' h
  refine eq_of_bytes (show 64 ≤ 8 * 8 by decide) fun k hk => ?_
  exact map_inj_left.mp h k (by simp; omega)

theorem checkSumBytes_injective : Function.Injective checkSumBytes := by
  intro checkSum checkSum' h
  refine eq_of_bytes (show 32 ≤ 8 * 4 by decide) fun k hk => ?_
  exact map_inj_left.mp h k (by simp; omega)

theorem totalLength_eq (len0 len1 : Byte) :
    totalLength len0 len1 = len0.toNat % 16 * 256 + len1.toNat := by
  have hhigh : ∀ byte : Byte, (byte.setWidth 16 &&& ~~~0xF0) =
      BitVec.ofNat 16 (byte.toNat % 16) := by decide
  unfold totalLength
  rw [hhigh, BitVec.toNat_or, BitVec.toNat_shiftLeft, BitVec.toNat_ofNat, BitVec.toNat_setWidth,
    mod_eq_of_lt (by omega : len0.toNat % 16 < 2 ^ 16), shiftLeft_eq, mod_eq_of_lt
    (by omega : len0.toNat % 16 * 2 ^ 8 < 2 ^ 16), mod_eq_of_lt (by omega : len1.toNat < 2 ^ 16), ←
    shiftLeft_eq, ← shiftLeft_add_eq_or_of_lt (by omega : len1.toNat < 2 ^ 8)]

theorem len0_low (byte : Byte) (live : Bool) :
    (if live then (byte &&& 0x0F) ||| ((flagsValid <<< 4) &&& 0xF0)
      else ((byte &&& 0x0F) ||| ((flagsValid <<< 4) &&& 0xF0)) &&&
        ~~~0x80).toNat % 16 = byte.toNat % 16 := by
  revert byte live
  decide

namespace Entry

variable (e : Entry)

theorem totalLength_len : totalLength e.len0 e.len1 = e.length := by
  have hlt : e.length < 0xFFF := e.length_lt
  have hlow := len0_low ((BitVec.ofNat 16 e.length >>> 8).setWidth 8) e.live
  rw [totalLength_eq]
  have hlen0 : e.len0.toNat % 16 = e.length / 256 := by
    refine hlow.trans ?_
    rw [BitVec.toNat_setWidth, BitVec.toNat_ushiftRight, BitVec.toNat_ofNat]
    omega
  have hlen1 : e.len1.toNat = e.length % 256 := by
    unfold len1
    rw [BitVec.toNat_setWidth, BitVec.toNat_ofNat]
    omega
  omega

theorem len0_live : e.len0 &&& 0x80 ≠ 0x80 ↔ e.live = false := by
  have hflag : ∀ (byte : Byte) (live : Bool),
      (if live then (byte &&& 0x0F) ||| ((flagsValid <<< 4) &&& 0xF0)
        else ((byte &&& 0x0F) ||| ((flagsValid <<< 4) &&& 0xF0)) &&&
          ~~~0x80) &&& 0x80 ≠ 0x80 ↔ live = false := by decide
  exact hflag _ _

theorem length_bytes : e.bytes.length = e.length := by
  simp [bytes, length, hashBytes, headerLength, hashOffset]
  omega

theorem headerLength_lt_length : headerLength + checkSumLen ≤ e.length :=
  Nat.add_le_add_left e.checkSumLen_le _

end Entry

section

variable {ε : Type} {pre xs post : List Byte} {i : ℕ} {byte : Byte}

theorem getElem?_at (h : xs[i]? = some byte) :
    (pre ++ xs ++ post)[pre.length + i]? = some byte := by
  have hi : i < xs.length := (List.getElem?_eq_some_iff.mp h).1
  rw [List.append_assoc, List.getElem?_append_right (by omega),
    Nat.add_sub_cancel_left, List.getElem?_append_left hi, h]

theorem byteAt_at (h : xs[i]? = some byte) (error : ε) :
    byteAt (pre ++ xs ++ post) (pre.length + i) error = .ok byte := by
  unfold byteAt
  rw [getElem?_at h]

theorem differsAt_at (pre xs post : List Byte) (error : ε) (ys : List Byte)
    (hlen : ys.length = xs.length) : differsAt (pre ++ xs ++ post) error pre.length ys =
      .ok (decide (xs ≠ ys)) := by
  induction xs generalizing pre ys with
  | nil =>
    obtain rfl := length_eq_zero_iff.mp hlen
    rfl
  | cons x xs ih =>
    obtain ⟨y, ys, rfl⟩ := exists_cons_of_length_eq_add_one hlen
    have hbyte : byteAt (pre ++ x :: xs ++ post) pre.length error = .ok x :=
      byteAt_at (i := 0) rfl error
    have hrest := ih (pre ++ [x]) ys (by simpa using hlen)
    rw [show pre ++ [x] ++ xs ++ post = pre ++ x :: xs ++ post by simp,
      length_append, length_singleton] at hrest
    rw [differsAt, hbyte]
    change (if x ≠ y then .ok true else differsAt _ error _ ys) = _
    by_cases hxy : x = y
    · rw [hrest]
      simp [hxy]
    · rw [if_pos hxy]
      simp [hxy]

end

/-! ## Walking along the entries -/

def image (entries : List Entry) : List Byte := entries.flatMap Entry.bytes

/-- The region holds the entries, and what is behind them is erased. -/
structure Holds (S : ℕ) (entries : List Entry) (regionData : List Byte) : Prop where
  fits : (image entries).length ≤ S
  eq : regionData = image entries ++ List.replicate (S - (image entries).length) 0xFF

def findIn (hash : BitVec 64) : ℕ → List Entry → Option (ℕ × Entry)
  | _, [] => none
  | offset, e :: entries =>
    if e.live = true ∧ e.hash = hash then some (offset, e)
    else findIn hash (offset + e.length) entries

variable {S : ℕ} {hash : BitVec 64} {pre regionData : List Byte} {offset k : ℕ}
  {entries : List Entry} {fuel : ℕ} {e : Entry}

/-- From the offset on the region holds the entries and then erased bytes. -/
structure HoldsFrom (S : ℕ) (regionData : List Byte) (offset : ℕ)
    (entries : List Entry) (k : ℕ) : Prop where
  split : ∃ pre, pre.length = offset ∧ regionData = pre ++ image entries ++ List.replicate k 0xFF
  length : offset + (image entries).length + k = S

theorem image_cons (e : Entry) (entries : List Entry) :
    image (e :: entries) = e.bytes ++ image entries := rfl

theorem HoldsFrom.erased (h : HoldsFrom S regionData offset [] k) {i : ℕ}
    (hi : i < k) : regionData[offset + i]? = some 0xFF := by
  obtain ⟨⟨-, rfl, rfl⟩, -⟩ := h
  rw [image, flatMap_nil, append_nil, getElem?_append_right (by omega), Nat.add_sub_cancel_left]
  exact getElem?_replicate_of_lt hi

/-- What is read of the first entry, and where the next one is. -/
structure ReadsEntry (S : ℕ) (regionData : List Byte) (offset : ℕ)
    (e : Entry) (entries : List Entry) (k : ℕ) : Prop where
  version : regionData[offset + versionOffset]? = some TicKV.version
  len0 : regionData[offset + lenOffset]? = some e.len0
  len1 : regionData[offset + lenOffset + 1]? = some e.len1
  fits : offset + e.length ≤ S
  next : HoldsFrom S regionData (offset + e.length) entries k

theorem HoldsFrom.entry (h : HoldsFrom S regionData offset (e :: entries) k) :
    ReadsEntry S regionData offset e entries k := by
  obtain ⟨⟨pre, rfl, rfl⟩, hS⟩ := h
  rw [image_cons, length_append, e.length_bytes] at hS
  have hsplit : pre ++ image (e :: entries) ++ replicate k 0xFF =
      pre ++ e.bytes ++ (image entries ++ replicate k 0xFF) := by
    simp [image_cons]
  rw [hsplit]
  refine ⟨getElem?_at rfl, getElem?_at rfl, getElem?_at (i := 2) rfl, by omega,
    ⟨pre ++ e.bytes, ?_, ?_⟩, by omega⟩
  · rw [length_append, e.length_bytes]
  · simp

theorem byteAt_of_getElem? {i : ℕ} {byte : Byte} (error : ε)
    (h : regionData[i]? = some byte) : byteAt regionData i error = .ok byte := by
  rw [byteAt, h]

theorem HoldsFrom.differsAt (h : HoldsFrom S regionData offset (e :: entries) k)
    {ε : Type} (error : ε) (hash : BitVec 64) :
    TicKV.differsAt regionData error (offset + hashOffset) (hashBytes hash) =
      .ok (decide (e.hash ≠ hash)) := by
  obtain ⟨⟨pre, rfl, rfl⟩, -⟩ := h
  have hat := differsAt_at (pre ++ [version, e.len0, e.len1])
    (hashBytes e.hash) (e.body ++ (image entries ++ replicate k 0xFF)) error (hashBytes hash) rfl
  rw [length_append] at hat
  rw [show pre ++ image (e :: entries) ++ replicate k 0xFF = pre ++ [version, e.len0, e.len1]
    ++ hashBytes e.hash ++ (e.body ++ (image entries ++ replicate k 0xFF)) by
        simp [image_cons, Entry.bytes]]
  refine hat.trans (congrArg Except.ok (decide_eq_decide.mpr (not_congr ?_)))
  exact hashBytes_injective.eq_iff

theorem findLoop_entry (h : HoldsFrom S regionData offset (e :: entries) k)
    (fuel : ℕ) (empty : Bool) : findLoop S hash regionData (fuel + 1) offset empty =
      if e.live ∧ e.hash = hash then .ok (offset, e.length)
      else findLoop S hash regionData fuel (offset + e.length) false := by
  have hlen := e.headerLength_lt_length
  have hfits := h.entry.fits
  unfold checkSumLen at hlen
  rw [findLoop, if_neg (by omega), byteAt_of_getElem? _ h.entry.version,
    byteAt_of_getElem? _ h.entry.len0, byteAt_of_getElem? _ h.entry.len1, h.differsAt]
  simp only [bind, Except.bind, e.totalLength_len]
  rw [if_neg (by decide), if_neg (by decide), if_neg (by omega)]
  simp only [e.len0_live]
  by_cases hlive : e.live
  · by_cases hsame : e.hash = hash
    · simp [hlive, pure, Except.pure]
    · simp [hsame]
  · simp [hlive]

/-- The scan walks the entries of a region one by one. -/
theorem findLoop_entries (h : HoldsFrom S regionData offset entries k)
    {empty : Bool} (hfuel : entries.length < fuel) :
    findLoop S hash regionData fuel offset empty =
      match findIn hash offset entries with
      | some (offset, e) => .ok (offset, e.length)
      | none => .error (decide (headerLength < k) &&
          !(empty && entries.isEmpty), .keyNotFound) := by
  induction entries generalizing offset fuel empty with
  | nil =>
    obtain ⟨fuel, rfl⟩ := exists_eq_succ_of_ne_zero (ne_of_gt hfuel)
    have hk : offset + k = S := h.length
    rw [findLoop, findIn]
    by_cases hend : headerLength < k
    · rw [if_neg (by omega), byteAt_of_getElem? _
        (h.erased (zero_lt_of_lt hend) : regionData[offset + versionOffset]? = _)]
      simp [bind, Except.bind, hend]
    · rw [if_pos (by omega)]
      simp [hend]
  | cons e entries ih =>
    obtain ⟨fuel, rfl⟩ := exists_eq_succ_of_ne_zero (ne_zero_of_lt hfuel)
    rw [findLoop_entry h, findIn]
    split_ifs
    · rfl
    · rw [ih h.entry.next (by simpa using hfuel)]
      simp

theorem differsAt_erased (pre : List Byte) (hk : headerLength ≤ k) (error : ε) :
    differsAt (pre ++ replicate k 0xFF) error (pre.length + hashOffset)
      (replicate 8 0xFF) = .ok false := by
  obtain ⟨rest, rfl⟩ := Nat.exists_eq_add_of_le hk
  have hat := differsAt_at (pre ++ replicate hashOffset 0xFF)
    (replicate 8 0xFF) (replicate rest 0xFF) error (replicate 8 0xFF) rfl
  rw [length_append, append_assoc pre, ← replicate_add, append_assoc, ← replicate_add] at hat
  exact hat

theorem appendScan_entries (h : HoldsFrom S regionData offset entries k)
    {packageLength : ℕ} (hpackage : headerLength ≤ packageLength) (hfuel : entries.length < fuel) :
    appendScan S packageLength regionData fuel offset =
      if k ≤ packageLength then .nextRegion
      else .free (offset + (image entries).length) := by
  induction entries generalizing offset fuel with
  | nil =>
    obtain ⟨fuel, rfl⟩ := exists_eq_succ_of_ne_zero (ne_of_gt hfuel)
    have hk : offset + k = S := h.length
    rw [appendScan]
    by_cases hfull : k ≤ packageLength
    · rw [if_pos (by omega), if_pos hfull]
    rw [if_neg (by omega), h.erased (by
      unfold versionOffset
      omega)]
    obtain ⟨⟨pre, rfl, rfl⟩, -⟩ := h
    rw [image, flatMap_nil, append_nil, differsAt_erased pre (by omega)]
    simp [hfull]
  | cons e entries ih =>
    obtain ⟨fuel, rfl⟩ := exists_eq_succ_of_ne_zero (ne_zero_of_lt hfuel)
    have hentry := h.entry
    have hS := hentry.next.length
    rw [appendScan]
    by_cases hend : offset + packageLength ≥ S
    · rw [if_pos hend, if_pos (by omega)]
    rw [if_neg hend, hentry.version, hentry.len0, hentry.len1]
    simp only
    rw [if_pos (by decide), if_neg (by decide), e.totalLength_len, ih hentry.next
      (by simpa using hfuel), image_cons, length_append, e.length_bytes, add_assoc]

theorem collectScan_entries (h : HoldsFrom S regionData offset entries k)
    {entryFound : Bool} (hfound : entryFound ∨ offset < S) (hfuel : entries.length < fuel) :
    collectScan S regionData fuel offset entryFound =
      if (entries.all fun e => !e.live) && (entryFound || !entries.isEmpty)
      then .erase else .keep := by
  induction entries generalizing offset fuel entryFound with
  | nil =>
    obtain ⟨fuel, rfl⟩ := exists_eq_succ_of_ne_zero (ne_of_gt hfuel)
    have hk : offset + k = S := h.length
    rw [collectScan]
    by_cases hend : k = 0
    · rw [if_pos (by omega), hfound.resolve_right (by omega)]
      rfl
    rw [if_neg (by omega), h.erased (by
      unfold versionOffset
      omega)]
    cases entryFound <;> rfl
  | cons e entries ih =>
    obtain ⟨fuel, rfl⟩ := exists_eq_succ_of_ne_zero (ne_zero_of_lt hfuel)
    have hentry := h.entry
    have hlen := e.headerLength_lt_length
    have hfits := hentry.fits
    unfold headerLength at hlen
    rw [collectScan, if_neg (by omega), hentry.version, hentry.len0, hentry.len1]
    simp only
    rw [if_pos (by decide), e.totalLength_len, ih hentry.next (.inl rfl) (by simpa using hfuel)]
    simp only [e.len0_live]
    cases hlive : e.live <;> simp [hlive]

def used (entries : List Entry) : ℕ := (image entries).length

theorem used_append (entries entries' : List Entry) :
    used (entries ++ entries') = used entries + used entries' := by
  simp [used, image]

theorem used_cons (e : Entry) (entries : List Entry) :
    used (e :: entries) = e.length + used entries := by
  rw [used, image_cons, length_append, e.length_bytes, used]

theorem length_le_used (entries : List Entry) : entries.length ≤ used entries := by
  induction entries with
  | nil => exact zero_le _
  | cons e entries ih =>
    have hlen := e.headerLength_lt_length
    rw [used_cons, length_cons]
    unfold headerLength at hlen
    omega

/-- A key that the region does not have is looked for in the neighbouring
regions if the region is neither empty nor full up to its last bytes. -/
def continues (S : ℕ) (entries : List Entry) : Bool :=
  decide (used entries + headerLength < S) && !entries.isEmpty

def erasable (entries : List Entry) : Bool :=
  (entries.all fun e => !e.live) && !entries.isEmpty

namespace Holds

variable {S : ℕ} {entries : List Entry} {regionData : List Byte}

section

variable (h : Holds S entries regionData)
include h

theorem holdsFrom : HoldsFrom S regionData 0 entries (S - (image entries).length) :=
  ⟨⟨[], rfl, h.eq⟩, by have := h.fits; omega⟩

theorem length_lt : entries.length < S + 1 := lt_succ_of_le ((length_le_used entries).trans h.fits)

theorem findKeyOffset_eq (hash : BitVec 64) : findKeyOffset S hash regionData =
      match findIn hash 0 entries with
      | some (offset, e) => .ok (offset, e.length)
      | none => .error (continues S entries, .keyNotFound) := by
  refine (findLoop_entries h.holdsFrom h.length_lt).trans ?_
  have hiff : used entries + headerLength < S ↔ headerLength < S - (image entries).length := by
    unfold used
    omega
  rw [continues, decide_eq_decide.mpr hiff, Bool.true_and]

theorem appendScan_eq {packageLength : ℕ} (hpackage : headerLength ≤ packageLength) :
    appendScan S packageLength regionData (S + 1) 0 =
      if S ≤ used entries + packageLength then .nextRegion
      else .free (used entries) := by
  rw [appendScan_entries h.holdsFrom hpackage h.length_lt, zero_add]
  unfold used
  exact if_congr (by omega) rfl rfl

theorem collectScan_eq (hpos : 0 < S) : collectScan S regionData (S + 1) 0 false =
      if erasable entries then .erase else .keep :=
  collectScan_entries h.holdsFrom (.inr hpos) h.length_lt

end

theorem erased : Holds S [] (replicate S 0xFF) := ⟨zero_le _, rfl⟩

end Holds

def splice (regionData : List Byte) (offset : ℕ) (buf : List Byte) : List Byte :=
  regionData.take offset ++ buf ++ regionData.drop (offset + buf.length)

theorem splice_at {xs ys post : List Byte} (hlen : ys.length = xs.length) :
    splice (pre ++ xs ++ post) pre.length ys = pre ++ ys ++ post := by
  unfold splice
  rw [append_assoc pre xs, take_left, hlen, ← append_assoc, ← length_append, drop_left]

theorem Holds.append {regionData : List Byte} (h : Holds S entries regionData)
    (hfits : used entries + e.length ≤ S) :
    Holds S (entries ++ [e]) (splice regionData (used entries) e.bytes) := by
  have himage : image (entries ++ [e]) = image entries ++ e.bytes := by
    simp [image]
  have hused : (image (entries ++ [e])).length = used entries + e.length := by
    rw [himage, length_append, e.length_bytes]
    rfl
  refine ⟨by rw [hused]; exact hfits, ?_⟩
  obtain ⟨rest, hrest⟩ := Nat.exists_eq_add_of_le hfits
  have hfree : S - (image entries).length = e.length + rest := by
    change S - used entries = _
    omega
  rw [h.eq, hfree, replicate_add, ← append_assoc, show used entries = (image entries).length from
    rfl, splice_at (by rw [length_replicate, e.length_bytes]), ← himage]
  congr 2
  omega

theorem Holds.replace {before after : List Entry} {e' : Entry} {regionData : List Byte}
    (h : Holds S (before ++ e :: after) regionData) (hlength : e'.length = e.length) :
    Holds S (before ++ e' :: after) (splice regionData (used before) e'.bytes) := by
  have himage : ∀ e : Entry, image (before ++ e :: after) =
      image before ++ e.bytes ++ image after := by
    simp [image]
  have hused : (image (before ++ e' :: after)).length = (image (before ++ e :: after)).length := by
    simp [himage, e.length_bytes, e'.length_bytes, hlength]
  refine ⟨by rw [hused]; exact h.fits, ?_⟩
  rw [hused, h.eq, himage, himage, append_assoc _ (image after),
    show used before = (image before).length from rfl,
    splice_at (by rw [e.length_bytes, e'.length_bytes, hlength]), ← append_assoc]

theorem findIn_append (hash : BitVec 64) (o : ℕ) (entries entries' : List Entry) :
    findIn hash o (entries ++ entries') = (findIn hash o entries).or
      (findIn hash (o + used entries) entries') := by
  induction entries generalizing o with
  | nil => simp [findIn, used, image]
  | cons e entries ih =>
    rw [cons_append, findIn, findIn]
    split_ifs
    · rfl
    · rw [ih, used_cons, add_assoc]

theorem findIn_eq_some {o offset : ℕ} (h : findIn hash o entries = some (offset, e)) :
    ∃ before after, entries = before ++ e :: after ∧
      offset = o + used before ∧ e.live ∧ e.hash = hash := by
  induction entries generalizing o with
  | nil => cases h
  | cons e' entries ih =>
    rw [findIn] at h
    split_ifs at h with hfound
    · cases h
      exact ⟨[], entries, rfl, rfl, hfound.1, hfound.2⟩
    obtain ⟨before, after, rfl, rfl, hlive, hhash⟩ := ih h
    refine ⟨e' :: before, after, rfl, ?_, hlive, hhash⟩
    rw [used_cons, add_assoc]

theorem findIn_eq_none : findIn hash o entries = none ↔
      ∀ e ∈ entries, ¬ (e.live ∧ e.hash = hash) := by
  induction entries generalizing o with
  | nil => simp [findIn]
  | cons e entries ih =>
    rw [findIn]
    split_ifs with hfound
    · simp [hfound]
    rw [ih]
    simp only [mem_cons, forall_eq_or_imp]
    exact ⟨fun hrest => ⟨hfound, hrest⟩, And.right⟩

end TockKernel.TicKV

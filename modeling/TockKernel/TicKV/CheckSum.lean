import TockKernel.BitPolynomial
import TockKernel.TicKV.Map

/-!
# Corrupted values

The checksum of an object is a polynomial remainder, so that it notices every
burst of 32 bits. `get_key` finds an object by its header alone and compares
the checksum of what it has read.
-/

namespace TockKernel

open BitPolynomial Polynomial Function List

namespace Crc32

noncomputable section

def generator : (ZMod 2)[X] := X ^ 32 + toPoly (0x04c11db7 : BitVec 32)

variable (bytes : List Byte)

def bits : List Bool := bytes.flatMap wordBits

def message : (ZMod 2)[X] := ofBits (bits bytes)

theorem length_bits : (bits bytes).length = 8 * bytes.length := by
  simp [bits, length_wordBits, Nat.mul_comm]

theorem message_append (bytes bytes' : List Byte) : message (bytes ++ bytes') =
      X ^ (8 * bytes'.length) * message bytes + message bytes' := by
  rw [message, bits, flatMap_append, ofBits_append]
  exact congrArg (X ^ · * message bytes + message bytes') (length_bits bytes')

theorem message_cons (byte : Byte) (bytes : List Byte) : message (byte :: bytes) =
      X ^ (8 * bytes.length) * toPoly byte + message bytes := by
  have hbyte : message [byte] = toPoly byte := by
    simp [message, bits, toPoly]
  rw [← singleton_append, message_append, hbyte]

/-! ## The register -/

theorem polySum_dvd (v : BitVec 32) : generator ∣ toPoly (polySum 0x04c11db7 v) - X * toPoly v := by
  have hcarry : toPoly ((v >>> 31) * 0x04c11db7) =
      toPoly (v >>> 31) * toPoly (0x04c11db7 : BitVec 32) := by
    have htop : v >>> 31 = 0 ∨ v >>> 31 = 1 := by bv_omega
    rcases htop with htop | htop
    · rw [htop, toPoly_zero]
      exact toPoly_zero
    · rw [htop, toPoly_one (by decide)]
      exact (one_mul (toPoly _)).symm
  have hshift := toPoly_shift v (by decide : 1 ≤ 32)
  refine ⟨toPoly (v >>> 31), ?_⟩
  rw [pow_one] at hshift
  rw [polySum, toPoly_xor, hcarry, ← hshift, generator, add_sub_add_left_eq_sub, CharTwo.sub_eq_add]
  ring

theorem polySum_iterate_dvd (v : BitVec 32) (k : ℕ) :
    generator ∣ toPoly ((polySum 0x04c11db7)^[k] v) - X ^ k * toPoly v := by
  induction k with
  | zero => simp
  | succ k ih =>
    rw [iterate_succ_apply']
    have hstep := polySum_dvd ((polySum 0x04c11db7)^[k] v)
    convert hstep.add (ih.mul_left X) using 1
    ring

def step (crc : BitVec 32) (byte : Byte) : BitVec 32 :=
  tableEntry (byte.setWidth 32 ^^^ (crc >>> 24)) ^^^ (crc <<< 8)

theorem step_dvd (crc : BitVec 32) (byte : Byte) : generator ∣ toPoly (step crc byte) -
      (X ^ 8 * toPoly crc + X ^ 32 * toPoly byte) := by
  have hindex : (((byte.setWidth 32 ^^^ (crc >>> 24)).setWidth 8).setWidth 32) =
      byte.setWidth 32 ^^^ (crc >>> 24) := by
    ext i hi
    by_cases hlow : i < 8
    · simp [hlow]
    · simp [BitVec.getLsbD_of_ge crc (24 + i) (by omega)]
  have hentry : generator ∣ toPoly (tableEntry (byte.setWidth 32 ^^^ (crc >>> 24)))
      - X ^ 32 * (toPoly byte + toPoly (crc >>> 24)) := by
    have htable := polySum_iterate_dvd ((byte.setWidth 32 ^^^ (crc >>> 24)) <<< 24) 8
    have hshift := toPoly_shift (byte.setWidth 32 ^^^ (crc >>> 24)) (by decide : 24 ≤ 32)
    have hbyte : (byte.setWidth 32 ^^^ (crc >>> 24)) >>> (32 - 24) = 0 := by
      bv_omega
    rw [hbyte, toPoly_zero, mul_zero, add_zero, toPoly_xor,
      toPoly_setWidth byte (by decide)] at hshift
    rw [hshift, ← mul_assoc, ← pow_add] at htable
    rw [tableEntry, crc32, hindex]
    exact htable
  convert hentry using 1
  have hshift := toPoly_shift crc (by decide : 8 ≤ 32)
  rw [step, toPoly_xor, ← hshift]
  ring

theorem update_dvd (crc : BitVec 32) (bytes : List Byte) : generator ∣ toPoly (update crc bytes) -
      (X ^ (8 * bytes.length) * toPoly crc + X ^ 32 * message bytes) := by
  induction bytes generalizing crc with
  | nil => simp [update, message, bits, ofBits]
  | cons byte bytes ih =>
    have hstep := (step_dvd crc byte).mul_left (X ^ (8 * bytes.length))
    convert (ih (step crc byte)).add hstep using 1
    rw [message_cons, length_cons]
    change toPoly (update (step crc byte) bytes) - _ = _
    ring

theorem degree_generator : generator.degree = 32 := by
  rw [generator, degree_add_eq_left_of_degree_lt, degree_X_pow]
  · rfl
  · rw [degree_X_pow]
    exact degree_toPoly_lt _

theorem update_eq_remainder : toPoly (update 0 bytes) = (message bytes * X ^ 32) %ₘ generator := by
  have hmonic : generator.Monic := monic_X_pow_add (degree_toPoly_lt _)
  have hself : toPoly (update 0 bytes) %ₘ generator = toPoly (update 0 bytes) :=
    (modByMonic_eq_self_iff hmonic).mpr (degree_toPoly_lt _ |>.trans_eq degree_generator.symm)
  rw [← hself]
  refine modByMonic_eq_of_dvd_sub hmonic ?_
  have hupdate := update_dvd 0 bytes
  rwa [toPoly_zero, mul_zero, zero_add, mul_comm] at hupdate

theorem finalise_chunks (chunks : List (List Byte)) : ∃ remainder : BitVec 32,
      toPoly remainder = (message chunks.flatten * X ^ 32) %ₘ generator ∧
      finalise (chunks.foldl update 0) = ~~~remainder := by
  refine ⟨update 0 chunks.flatten, update_eq_remainder _, ?_⟩
  rw [update, foldl_flatten]
  exact BitVec.xor_allOnes

theorem update_ne_of_burst (header : List Byte) {value value' : List Byte}
    (h : Burst 32 (bits value) (bits value')) :
    update 0 (header ++ value) ≠ update 0 (header ++ value') := by
  intro hsame
  have hlen : value'.length = value.length := by
    have hbits := h.length_eq
    rw [length_bits, length_bits] at hbits
    omega
  refine h.not_dvd degree_generator ?_ 32 ?_
  · rw [generator, coeff_add, coeff_X_pow, coeff_toPoly]
    decide
  · have hvalue := update_dvd 0 (header ++ value)
    have hvalue' := update_dvd 0 (header ++ value')
    rw [hsame] at hvalue
    convert hvalue'.sub hvalue using 1
    simp only [message_append, length_append, hlen]
    simp only [message]
    ring

end

end Crc32

namespace TicKV

open Crc32

variable {S : ℕ} {t : TicKV S} {store : ℕ → List Entry} {hash : BitVec 64}
  {value : List Byte} {r : ℕ} {before after : List Entry}

/-- What can become of the value and the checksum of an object. -/
inductive Damaged (hash : BitVec 64) (value : List Byte) : List Byte → Prop where
  | value {value' : List Byte} (burst : Burst 32 (bits value) (bits value')) :
      Damaged hash value (value' ++ checkSumBytes (finalise (update 0 (packageBytes hash value))))
  | checkSum {checkSum : List Byte} (length_eq : checkSum.length = checkSumLen)
      (changed : checkSum ≠ checkSumBytes (finalise (update 0 (packageBytes hash value)))) :
      Damaged hash value (value ++ checkSum)

/-- The search for the key comes to the object: the regions before it have
entries and room left, but not the key, and no object before it has it. -/
structure ComesTo (t : TicKV S) (store : ℕ → List Entry) (hash : BitVec 64)
    (r : ℕ) (before : List Entry) : Prop where
  buffer : t.readBuffer = true
  valid : ValidHash hash
  regions : ∃ earlier later, t.order hash =
    earlier ++ r :: later ∧ ∀ r' ∈ earlier, findIn hash 0 (store r') = none ∧
      continues S (store r') = true
  first : findIn hash 0 before = none

theorem Damaged.invalid {body : List Byte} (h : Damaged hash value body) :
    ∃ value' checkSum, body = value' ++ checkSum ∧
      value'.length = value.length ∧ checkSum.length = checkSumLen ∧
      checkSum ≠ checkSumBytes (finalise (update 0 (packageBytes hash value'))) := by
  cases h with
  | @value value' burst =>
    have hbits := burst.length_eq
    rw [length_bits, length_bits] at hbits
    have hlen : value'.length = value.length := by omega
    refine ⟨value', _, rfl, hlen, rfl, fun hsame => ?_⟩
    have hcrc := (BitVec.xor_left_inj _).mp (checkSumBytes_injective hsame)
    rw [packageBytes, packageBytes, hlen] at hcrc
    exact update_ne_of_burst _ burst hcrc
  | @checkSum checkSum length_eq changed =>
    exact ⟨value, checkSum, rfl, rfl, length_eq, changed⟩

theorem readRegion_damaged (h : t.Represents store) {e e' : Entry}
    (hlocated : Located t store hash r before e after)
    (hlive : e'.live) (hhash : e'.hash = hash) (hlen : e'.length = e.length) (r' : ℕ) :
    (t.write (S * r + (used before + headerLength)) e'.body).readRegion r' =
      if r' = r then splice (t.readRegion r) (used before) e'.bytes
      else t.readRegion r' := by
  obtain ⟨_, hregion, hfits⟩ := h.readRegion_eq hlocated
  have hbody : e'.body.length = e.body.length := Nat.add_left_cancel hlen
  rw [readRegion_write (by
    unfold Entry.length at hfits
    omega), hregion]
  change (if r' = r then splice _ ((image before).length + _) _ else _) =
    if r' = r then splice _ (image before).length _ else _
  rw [splice_at (by rw [e'.length_bytes, e.length_bytes, hlen]), Entry.bytes_of_live hlive,
    Entry.bytes_of_live hlocated.live, hlen, hhash, hlocated.hash_eq, ← append_assoc, ←
    append_assoc, show (image before).length + headerLength = (image before ++ headerBytes hash
    (.ofNat 16 e.length)).length by
        rw [length_append]
        rfl, splice_at hbody]

theorem getKey_returns {buf : List Byte} {result} (h : t.getKey hash buf = .ok result) :
    ValidHash hash ∧ t.readBuffer := by
  unfold getKey at h
  split at h
  · cases h
  all_goals exact locate_ok ‹_›

theorem getValue_written {t' : TicKV S} {region : ℕ} {e : Entry} {buf buf' : List Byte}
    {regionData : List Byte} {before after : List Entry}
    (h : t.Represents store) (hr : region < t.numRegion) (he : e ∈ store region)
    (hlive : e.live) (hholds : Holds S (before ++ e :: after) regionData)
    {t'' : TicKV S} : t'.getValue buf regionData (used before) e.length ≠
      .ok ((.error .invalidCheckSum, buf'), t'') := by
  obtain ⟨_, hvalue, hentry⟩ := h.written region hr e he hlive
  rw [hentry] at hholds ⊢
  rw [getValue_ofValue hholds]
  split_ifs
  all_goals simp

theorem getKey_damaged_iff (h : t.Represents store) {hvalue : Storable value}
    (hlocated : Located t store hash r before (.ofValue hash value hvalue) after)
    {body buf : List Byte} (hdamaged : Damaged hash value body) (hbuf : value.length ≤ buf.length) :
    (∃ buf' t', (t.write (S * r + (used before + headerLength)) body).getKey
      hash buf = .ok ((.error .invalidCheckSum, buf'), t')) ↔ ComesTo t store hash r before := by
  obtain ⟨value', checkSum, rfl, hlen, hcheckSum, hinvalid⟩ := hdamaged.invalid
  let e : Entry := {
    live := true
    hash := hash
    body := value' ++ checkSum
    checkSumLen_le := by simp [hcheckSum]
    length_lt := by
      rw [length_append]
      omega }
  have helength : e.length = (Entry.ofValue hash value hvalue).length := by
    rw [Entry.length_ofValue, Entry.length, length_append, hlen, hcheckSum, Nat.add_assoc]
  let damaged := t.write (S * r + (used before + headerLength)) e.body
  have hn : 0 < damaged.numRegion := Nat.zero_lt_of_lt hlocated.lt
  have hholds : ∀ r' < damaged.numRegion, Holds S (update store r (before ++ e :: after) r')
      (damaged.readRegion r') := by
    intro r' hr'
    rw [readRegion_damaged h hlocated rfl rfl helength]
    by_cases hsame : r' = r
    · subst hsame
      rw [update_self, if_pos rfl]
      have hold := h.holds r' hr'
      rw [hlocated.split] at hold
      exact hold.replace helength
    · rw [update_of_ne hsame, if_neg hsame]
      exact h.holds r' hr'
  have hdamagedFound : findIn hash (0 + used before) (e :: after) =
      some (0 + used before, e) := if_pos ⟨rfl, rfl⟩
  constructor
  · rintro ⟨buf', t', hget⟩
    obtain ⟨hvalid, hbuffer⟩ := getKey_returns hget
    rw [getKey_search hholds hbuffer hn hvalid] at hget
    split at hget
    · next region o found hsearch =>
        obtain ⟨earlier, later, horder, hfound, hearlier⟩ := search_split hsearch
        obtain ⟨_, _, hsplit, rfl, hlive, -⟩ := findIn_eq_some hfound
        have hregion : region < damaged.numRegion := order_lt hn (by rw [horder]; simp)
        have hat := hholds region hregion
        rw [hsplit] at hat
        rw [Nat.zero_add] at hget
        have hnew : found ∉ store region := fun hold =>
          getValue_written h hregion hold hlive hat hget
        by_cases hsame : region = r
        · subst hsame
          have hold := hfound
          rw [update_self, findIn_append] at hold
          cases hfirst : findIn hash 0 before with
          | none =>
            refine ⟨hbuffer, hvalid, ⟨earlier, later, horder, ?_⟩, hfirst⟩
            intro r' hr'
            have hbefore := hearlier r' hr'
            by_cases hregion' : r' = region
            · rw [hregion', hfound] at hbefore
              cases hbefore.1
            · rwa [update_of_ne hregion'] at hbefore
          | some first =>
            rw [hfirst] at hold
            cases hold
            obtain ⟨_, _, hbefore, -⟩ := findIn_eq_some hfirst
            exact absurd (by simp [hlocated.split, hbefore]) hnew
        · rw [update_of_ne hsame] at hsplit
          exact absurd (by simp [hsplit]) hnew
    · cases hget
  · rintro ⟨hbuffer, hvalid, ⟨earlier, later, horder, hearlier⟩, hfirst⟩
    have hother : ∀ r' ∈ earlier, update store r (before ++ e :: after) r' = store r' := by
      intro r' hr'
      refine update_of_ne ?_ _ _
      rintro rfl
      have hnone := (hearlier r' hr').1
      rw [hlocated.split, findIn_append, hfirst, findIn, if_pos ⟨rfl, rfl⟩] at hnone
      cases hnone
    have hfound : findIn hash 0 (update store r (before ++ e :: after) r) =
        some (0 + used before, e) := by
      rw [update_self, findIn_append, hfirst, hdamagedFound]
      rfl
    have hat := hholds r hlocated.lt
    rw [update_self] at hat
    have hsearch : search S (update store r (before ++ e :: after)) hash
        (damaged.order hash) = some (r, used before, e) := by
      rw [show damaged.order hash = _ from horder,
        search_before (fun r' hr' => ?_) hfound, if_pos fun r' hr' => ?_, Nat.zero_add]
      · rw [hother r' hr']
        exact (hearlier r' hr').2
      · rw [hother r' hr']
        exact (hearlier r' hr').1
    refine ⟨value' ++ buf.drop value'.length, damaged, ?_⟩
    rw [getKey_search hholds hbuffer hn hvalid]
    simp only [hsearch]
    rw [getValue_entry hat rfl rfl hcheckSum, if_neg (by omega), if_pos hinvalid]

/-- Every chunking has the checksum of the whole message, and `get_key` notices
the damage exactly if its search comes to the damaged object. -/
theorem damage_noticed_iff {S : ℕ} (t : TicKV S) (store : ℕ → List Entry) :
    (∀ chunks : List (List Byte), ∃ remainder : BitVec 32,
      toPoly remainder = (message chunks.flatten * X ^ 32) %ₘ generator ∧
      finalise (chunks.foldl update 0) = ~~~remainder) ∧
    ∀ (hash : BitVec 64) (value : List Byte) (hvalue) (r : ℕ) (before after : List Entry),
      t.Represents store → Located t store hash r before (.ofValue hash value hvalue) after →
      ∀ body buf : List Byte, Damaged hash value body → value.length ≤ buf.length →
        ((∃ buf' t', (t.write (S * r + (used before + headerLength)) body).getKey
          hash buf = .ok ((.error .invalidCheckSum, buf'), t')) ↔ ComesTo t store hash r before) :=
  ⟨finalise_chunks, fun _ _ _ _ _ _ h hlocated _ _ hdamaged hbuf =>
    getKey_damaged_iff h hlocated hdamaged hbuf⟩

theorem damage_noticed_small : ∃ buf' t', (smallStore.write
    (64 * 1 + (used [] + headerLength)) [0, 0, 0, 0]).getKey 1 [] =
      .ok ((.error .invalidCheckSum, buf'), t') := by
  obtain ⟨hhash, -, _, -, hchanged⟩ := initialise_written (by decide) smallStore_initialise
  refine ((damage_noticed_iff smallStore _).2 1 [] (by decide) 1 [] []
    hchanged.represents ⟨by decide, rfl, rfl, rfl⟩ _ []
    (.checkSum rfl (by decide +kernel)) (by decide)).mpr
      ⟨by decide +kernel, hhash, ⟨[], [0], by decide +kernel, by simp⟩, rfl⟩

theorem damaged_first (hash : BitVec 64) (rest : List Byte) :
    Damaged hash (5 :: rest) (4 :: rest ++ checkSumBytes (finalise
      (update 0 (packageBytes hash (5 :: rest))))) :=
  .value ⟨[], bits [5], bits [4], bits rest, rfl, rfl, rfl, by decide, by decide⟩

/-- Zeroising an object at the end of a region fails and leaves the store
without its read buffer, so that reading the damaged value panics. -/
theorem damage_panics :
    let value : List Byte := .replicate 40 5
    let full := smallStore.stateAfter (smallStore.call (.append 2 value))
    let lost := full.stateAfter (full.call (.zeroise 2))
    let damage : List Byte := 4 :: .replicate 39 5 ++
      checkSumBytes (finalise (update 0 (packageBytes 2 value)))
    (smallStore.call (.append 2 value)).map Prod.fst = .ok (.changed (.ok .written)) ∧
      (full.call (.zeroise 2)).map Prod.fst = .ok (.changed (.error .regionFull)) ∧
      (lost.readRegion 0).take 55 = objectBytes 2 value ∧ Damaged 2 value damage ∧
      ((lost.write headerLength damage).getKey 2 (.replicate 40 0)).map
        Prod.fst = .error .panic := by
  refine ⟨by decide +kernel, by decide +kernel, by decide +kernel,
    damaged_first 2 _, by decide +kernel⟩

end TicKV

end TockKernel

import TockKernel.TicKV.GarbageCollect

/-!
# What a change touches

A call that changes the flash writes inside one object and only clears bits, so
the other objects keep their bytes.
-/

namespace TockKernel.TicKV

open Entry List

variable {S : ℕ} {t t' : TicKV S} {store : ℕ → List Entry} {hash : BitVec 64}

/-- Only the bytes from `first` up to `last` change, and no bit is set. -/
structure ClearsWithin (t t' : TicKV S) (first last : ℕ) : Prop where
  outside : ∀ a, a < first ∨ last ≤ a → t'.flash a = t.flash a
  clears : ∀ a, t'.flash a &&& t.flash a = t'.flash a

/-- An object of the store, valid or not, and where it is in its region. -/
def ObjectAt (store : ℕ → List Entry) (r offset : ℕ) (e : Entry) : Prop :=
  ∃ before after, store r = before ++ e :: after ∧ offset = used before

/-- The object that a call appends or addresses, with its place and length. -/
def Call.Addresses (store : ℕ → List Entry) (r offset length : ℕ) : Call → Prop
  | .append _ value => offset = used (store r) ∧ length = headerLength + value.length + checkSumLen
  | .get _ _ => False
  | .invalidate hash | .zeroise hash => ∃ e, ObjectAt store r offset e ∧
      e.live = true ∧ e.hash = hash ∧ length = e.length

/-! ## Writing -/

theorem ClearsWithin.mono {first last first' last' : ℕ} (h : ClearsWithin t t' first last)
    (hfirst : first' ≤ first) (hlast : last ≤ last') : ClearsWithin t t' first' last' :=
  ⟨fun a ha => h.outside a (by omega), h.clears⟩

variable {r offset : ℕ} {e : Entry} {result : Except ErrorCode SuccessCode}

theorem ClearsWithin.write {pre old post buf : List Byte}
    (hregion : t.readRegion r = pre ++ old ++ post) (hoffset : offset = pre.length)
    (hbits : Forall₂ (fun new old : Byte => new &&& old = new) buf old) :
    ClearsWithin t (t.write (S * r + offset) buf) (S * r + offset)
      (S * r + offset + buf.length) := by
  have hsame : ∀ a, a < S * r + offset ∨ S * r + offset + buf.length ≤ a →
      (t.write (S * r + offset) buf).flash a = t.flash a := by
    intro a ha
    simp only [TicKV.write]
    split_ifs with hle
    · rw [getD_eq_getElem?_getD, getElem?_eq_none (by omega)]
      rfl
    · rfl
  refine ⟨hsame, fun a => ?_⟩
  by_cases ha : a < S * r + offset ∨ S * r + offset + buf.length ≤ a
  · rw [hsame a ha, BitVec.and_self]
  obtain ⟨i, rfl⟩ : ∃ i, a = S * r + offset + i := Nat.exists_eq_add_of_le (by omega)
  have hi : i < buf.length := by omega
  have hi' : i < old.length := hbits.length_eq ▸ hi
  have hnew : (t.write (S * r + offset) buf).flash (S * r + offset + i) = buf[i] := by
    simp [TicKV.write, hi]
  have hold : t.flash (S * r + offset + i) = old[i] := by
    have hread := congrArg (fun bytes => bytes[offset + i]?) hregion
    have hmiddle : (pre ++ old ++ post)[offset + i]? = some old[i] := by
      rw [append_assoc, hoffset, getElem?_append_right (by omega),
        Nat.add_sub_cancel_left, getElem?_append_left hi', getElem?_eq_getElem hi']
    simp only [getElem?_readRegion, hmiddle] at hread
    split_ifs at hread
    rw [Nat.add_assoc]
    exact Option.some.inj hread
  rw [hnew, hold]
  exact hbits.get hi hi'

theorem clears_self (bytes : List Byte) :
    Forall₂ (fun new old : Byte => new &&& old = new) bytes bytes :=
  forall₂_same.mpr fun _ _ => BitVec.and_self

theorem clears_erased (bytes : List Byte) : Forall₂ (fun new old : Byte => new &&& old = new) bytes
      (replicate bytes.length 0xFF) := by
  induction bytes with
  | nil => exact .nil
  | cons byte bytes ih => exact .cons BitVec.and_allOnes ih

theorem clears_zeros (bytes : List Byte) : Forall₂ (fun new old : Byte => new &&& old = new)
      (replicate bytes.length 0) bytes := by
  induction bytes with
  | nil => exact .nil
  | cons byte bytes ih => exact .cons BitVec.zero_and ih

theorem ObjectAt.apart {offset' : ℕ} {e' : Entry}
    (h : ObjectAt store r offset e) (h' : ObjectAt store r offset' e') (hne : offset' ≠ offset) :
    offset' + e'.length ≤ offset ∨ offset + e.length ≤ offset' := by
  obtain ⟨_, _, hsplit, rfl⟩ := h
  obtain ⟨_, _, hsplit', rfl⟩ := h'
  rcases append_eq_append_iff.mp (hsplit.symm.trans hsplit') with
    ⟨middle, rfl, hrest⟩ | ⟨middle, rfl, hrest⟩
  all_goals
    cases middle with
    | nil => simp at hne
    | cons first middle =>
      obtain ⟨rfl, -⟩ := cons.inj hrest
      simp only [used_append, used_cons]
      omega

theorem ObjectAt.below (h : ObjectAt store r offset e) : offset + e.length ≤ used (store r) := by
  obtain ⟨_, _, hsplit, rfl⟩ := h
  rw [hsplit, used_append, used_cons]
  omega

theorem Located.objectAt {before after : List Entry} (h : Located t store hash r before e after) :
    ObjectAt store r (used before) e :=
  ⟨before, after, h.split, rfl⟩

/-! ## Calls -/

/-- The call leaves the flash alone, or changes the object it is about. -/
def Call.Local (t t' : TicKV S) (store : ℕ → List Entry) (c : Call) : Prop :=
  t'.flash = t.flash ∨ ∃ r offset length, r < t.numRegion ∧
    offset + length ≤ S ∧ c.Addresses store r offset length ∧
    ClearsWithin t t' (S * r + offset) (S * r + offset + length)

theorem Represents.locate_cases (h : t.Represents store)
    (hn : 0 < t.numRegion) {found : Except ErrorCode (ℕ × ℕ × ℕ)}
    (hlocate : t.locate hash = .ok found) : found = .error .keyNotFound ∨ ∃ r before e after post,
      found = .ok (r, used before, e.length) ∧ Located t store hash r before e after ∧
      t.readRegion r = image before ++ e.bytes ++ post ∧ used before + e.length ≤ S ∧
      (t.readRegion r)[used before + lenOffset]? = some e.len0 := by
  obtain ⟨hhash, hbuf⟩ := locate_ok hlocate
  rw [locate_eq h.holds hbuf hn hhash] at hlocate
  cases hsearch : search S store hash (t.order hash) with
  | none =>
    rw [hsearch] at hlocate
    exact .inl (Except.ok.inj hlocate).symm
  | some place =>
    obtain ⟨r, _, e⟩ := place
    obtain ⟨before, after, rfl, hlocated⟩ := search_located hn hsearch
    obtain ⟨post, hregion, hfits⟩ := h.readRegion_eq hlocated
    rw [hsearch] at hlocate
    refine .inr ⟨r, before, e, after, post, (Except.ok.inj hlocate).symm,
      hlocated, hregion, hfits, ?_⟩
    rw [hregion]
    exact getElem?_at rfl

theorem invalidateKey_local (h : t.Represents store) (hn : 0 < t.numRegion)
    (hcall : t.invalidateKey hash = .ok (result, t')) :
    (Call.invalidate hash).Local t t' store := by
  unfold invalidateKey at hcall
  cases hlocate : t.locate hash with
  | error abort =>
    rw [hlocate] at hcall
    cases hcall
  | ok found =>
    rw [hlocate] at hcall
    rcases h.locate_cases hn hlocate with rfl |
      ⟨r, before, e, _, post, rfl, hlocated, hregion, hfits, hlen0⟩
    · cases hcall
      exact .inl rfl
    simp only [hlen0] at hcall
    cases hcall
    have hsplit : t.readRegion r = (image before ++ [version]) ++
        [e.len0] ++ (e.len1 :: hashBytes e.hash ++ e.body ++ post) := by
      rw [hregion]
      simp [bytes]
    have hbit : e.len0 &&& ~~~0x80 &&& e.len0 = e.len0 &&& ~~~0x80 := by
      rw [BitVec.and_assoc, BitVec.and_comm (~~~0x80), ← BitVec.and_assoc, BitVec.and_self]
    have hwrite := ClearsWithin.write hsplit
      (by simp [used, lenOffset] : used before + lenOffset = _) (.cons hbit .nil)
    have hlen := e.headerLength_lt_length
    refine .inr ⟨r, used before, e.length, hlocated.lt, hfits,
      ⟨e, hlocated.objectAt, hlocated.live, hlocated.hash_eq, rfl⟩, hwrite.mono (by omega) ?_⟩
    simp only [length_singleton, lenOffset, headerLength] at hlen ⊢
    omega

theorem zeroise_clears (hlive : e.live) :
    Forall₂ (fun new old : Byte => new &&& old = new) e.zeroise.bytes e.bytes := by
  have hlen0 : e.zeroise.len0 &&& e.len0 = e.zeroise.len0 := by
    rw [len0_of_dead hlive rfl e.length_zeroise, BitVec.and_assoc,
      BitVec.and_comm (~~~0x80), ← BitVec.and_assoc, BitVec.and_self]
  have hlen1 : e.zeroise.len1 = e.len1 := by
    rw [len1, len1, e.length_zeroise]
  refine .cons BitVec.and_self (.cons hlen0 (.cons ?_ ?_))
  · rw [hlen1, BitVec.and_self]
  · exact rel_append (clears_self _) (clears_zeros _)

section

variable (h : t.Represents store) (hn : 0 < t.numRegion)
include h hn

theorem zeroiseKey_local (hcall : t.zeroiseKey hash = .ok (result, t')) :
    (Call.zeroise hash).Local t t' store := by
  unfold zeroiseKey at hcall
  cases hlocate : t.locate hash with
  | error abort =>
    rw [hlocate] at hcall
    cases hcall
  | ok found =>
    rw [hlocate] at hcall
    rcases h.locate_cases hn hlocate with rfl |
      ⟨r, before, e, _, _, rfl, hlocated, hregion, hfits, hlen0⟩
    · cases hcall
      exact .inl rfl
    simp only [hlen0] at hcall
    split_ifs at hcall with hend
    · cases hcall
      exact .inl rfl
    cases hcall
    have hbuf : ((((t.readRegion r).set (used before + lenOffset)
        (e.len0 &&& ~~~0x80)).drop (used before)).take headerLength ++
        replicate (e.length - headerLength) 0).take e.length = e.zeroise.bytes := by
      rw [hregion, zeroise_bytes hlocated.live, ← e.length_zeroise,
        ← e.zeroise.length_bytes, take_length]
    have hwrite := ClearsWithin.write hregion rfl (zeroise_clears hlocated.live)
    rw [e.zeroise.length_bytes, e.length_zeroise] at hwrite
    rw [hbuf]
    exact .inr ⟨r, used before, e.length, hlocated.lt, hfits,
      ⟨e, hlocated.objectAt, hlocated.live, hlocated.hash_eq, rfl⟩, hwrite⟩

theorem appendKey_local {value : List Byte} (hcall : t.appendKey hash value = .ok (result, t')) :
    (Call.append hash value).Local t t' store := by
  by_cases hvalue : Storable value
  · obtain ⟨hhash, hbuf⟩ := appendKey_ok hvalue hcall
    rw [appendKey_eq h hbuf hn hhash hvalue] at hcall
    cases hplace : place S store hash (headerLength + value.length)
        (t.order hash) with
    | found | full =>
      rw [hplace] at hcall
      cases hcall
      exact .inl rfl
    | inRegion r =>
      obtain ⟨_, _, horder, -⟩ := place_inRegion hplace
      have hr : r < t.numRegion := order_lt hn (by rw [horder]; simp)
      rw [hplace, appendResult] at hcall
      split_ifs at hcall with hroom
      · cases hcall
        exact .inl rfl
      cases hcall
      have hlen : (objectBytes hash value).length = headerLength + value.length + checkSumLen := by
        rw [← bytes_ofValue hvalue, length_bytes, length_ofValue]
      have hsplit : ∃ post, t.readRegion r = image (store r) ++
          replicate (objectBytes hash value).length 0xFF ++ post := by
        refine ⟨replicate (S - used (store r) - (objectBytes hash value).length) 0xFF, ?_⟩
        rw [append_assoc, replicate_append_replicate, (h.holds r hr).eq]
        unfold used
        congr 2
        unfold used at hroom
        omega
      obtain ⟨post, hregion⟩ := hsplit
      have hwrite := ClearsWithin.write hregion rfl (clears_erased (objectBytes hash value))
      rw [hlen] at hwrite
      exact .inr ⟨r, used (store r), _, hr, by omega, ⟨rfl, rfl⟩, hwrite⟩
  · rw [appendKey_too_large hvalue hcall]
    exact .inl rfl

theorem call_local {c : Call} {answer : Answer} (hcall : t.call c = .ok (answer, t')) :
    c.Local t t' store := by
  cases c with
  | append hash value =>
    obtain ⟨result, happend⟩ := Result.map_ok hcall
    exact appendKey_local h hn happend
  | get hash buf =>
    obtain ⟨result, hget⟩ := Result.map_ok hcall
    rw [getKey_same h hn hget]
    exact .inl rfl
  | invalidate hash =>
    obtain ⟨result, hinvalidate⟩ := Result.map_ok hcall
    exact invalidateKey_local h hn hinvalidate
  | zeroise hash =>
    obtain ⟨result, hzeroise⟩ := Result.map_ok hcall
    exact zeroiseKey_local h hn hzeroise

end

theorem Call.Addresses.apart {c : Call} {length offset' : ℕ} (h : c.Addresses store r offset length)
    (hobject : ObjectAt store r offset' e) (hne : offset' ≠ offset) :
    offset' + e.length ≤ offset ∨ offset + length ≤ offset' := by
  cases c with
  | append hash value =>
    obtain ⟨rfl, -⟩ := h
    exact .inl hobject.below
  | get hash buf => exact absurd h id
  | invalidate hash | zeroise hash =>
    obtain ⟨_, hobject', -, -, rfl⟩ := h
    exact hobject'.apart hobject hne

/-- The flash differs only in the bytes of the object that is appended or
addressed, no bit is set, and every other object keeps its bytes. -/
def ChangesOnly (t t' : TicKV S) (c : Call) : Prop :=
  ∃ store, t.Represents store ∧ (t'.flash = t.flash ∨
    ∃ r offset length, r < t.numRegion ∧ offset + length ≤ S ∧ c.Addresses store r offset length ∧
      ClearsWithin t t' (S * r + offset) (S * r + offset + length) ∧
      ∀ r' < t.numRegion, ∀ offset' e, ObjectAt store r' offset' e →
        (r', offset') ≠ (r, offset) → ∀ i < e.length,
          t'.flash (S * r' + offset' + i) = t.flash (S * r' + offset' + i))

/-- Whatever a call answers, it changes no bytes but those of the object it is about. -/
theorem mutations_are_local {mainKey : BitVec 64} {blank t0 : TicKV S} (hn : 0 < blank.numRegion)
    (hinit : blank.initialise mainKey = .ok (.ok .written, t0)) (hreachable : Reachable t0 t)
    {c : Call} {answer : Answer} (hcall : t.call c = .ok (answer, t')) : ChangesOnly t t' c := by
  obtain ⟨hn', -, store, h⟩ := hreachable.represents hn hinit
  refine ⟨store, h, ?_⟩
  rcases call_local h hn' hcall with hsame | ⟨r, offset, length, hr, hfits, haddresses, hclears⟩
  · exact .inl hsame
  refine .inr ⟨r, offset, length, hr, hfits, haddresses, hclears, ?_⟩
  intro r' hr' offset' e hobject hne i hi
  refine hclears.outside _ ?_
  by_cases hregion : r' = r
  · subst hregion
    have happart := haddresses.apart hobject fun heq => hne (by rw [heq])
    omega
  -- another region
  have hbelow := hobject.below
  have hused : used (store r') ≤ S := (h.holds r' hr').fits
  rcases lt_or_gt_of_ne hregion with hlt | hgt
  · have hmul : S * r' + S ≤ S * r := by
      exact Nat.mul_le_mul_left S hlt
    omega
  have hmul : S * r + S ≤ S * r' := by
    exact Nat.mul_le_mul_left S hgt
  omega

theorem mutations_are_local_small : ∃ t', smallStore.call (.append 2 [1, 2, 3]) =
        .ok (.changed (.ok .written), t') ∧ ChangesOnly smallStore t' (.append 2 [1, 2, 3]) := by
  have hcall := eq_stateAfter smallStore (by decide +kernel :
    (smallStore.call (.append 2 [1, 2, 3])).map Prod.fst = .ok (.changed (.ok .written)))
  exact ⟨_, hcall, mutations_are_local (by decide) smallStore_initialise .start hcall⟩

end TockKernel.TicKV

import TockKernel.TicKV.Device

/-!
# The read buffer

An operation takes the read buffer out of its cell, and a store without it is of
no use any more. The buffer gets lost in the early returns that a `?` makes
while it is taken. Whether this happens depends on the bytes of the region that
an operation looks at.
-/

namespace TockKernel.TicKV

open Verdict Option List

variable {S : ℕ} {ρ : Type}

/-! ## The bytes that are harmless -/

/-- `get_key` copies what fits into the buffer of the caller, from inside of the
region, and the entry does not reach beyond the region if all of it fits. -/
def GetSafe (S : ℕ) (profile : Arithmetic.Profile) (hash : BitVec 64)
    (buf regionData : List Byte) : Prop :=
  ∀ offset length len, findKeyOffset S hash regionData = .ok (offset, length) →
    valueLength profile length = .ok len →
    if buf.length < len then offset + headerLength + buf.length ≤ S
    else offset + headerLength + len ≤ S ∧ offset + length ≤ S

def ZeroiseSafe (S : ℕ) (hash : BitVec 64) (regionData : List Byte) : Prop :=
  ∀ offset length, findKeyOffset S hash regionData = .ok (offset, length) →
    offset + length + headerLength ≤ S

def AppendSafe (S : ℕ) (hash : BitVec 64) (value regionData : List Byte) : Prop :=
  (∃ e, findKeyOffset S hash regionData = .error e) → ∀ o, Relation.ReflTransGen
        (Steps (AppendWalks S (headerLength + value.length) regionData)
          (entryLength regionData)) 0 o →
      appendStop S (headerLength + value.length) regionData o = .free o →
      o + (headerLength + value.length) + checkSumLen ≤ S

/-- The length field of an entry behind deleted ones is inside of the region. -/
def CollectSafe (S : ℕ) (regionData : List Byte) : Prop :=
  ∀ o, Relation.ReflTransGen (Steps (CollectWalks S regionData) (entryLength regionData)) 0 o →
    regionData[o]? = some version → o + 2 < S

def Safe (S : ℕ) (profile : Arithmetic.Profile) : Operation → List Byte → Prop
  | .initialise mainKey, regionData =>
    GetSafe S profile mainKey [] regionData ∧ AppendSafe S mainKey [] regionData
  | .append hash value, regionData =>
    headerLength + value.length + checkSumLen < 0xFFF → AppendSafe S hash value regionData
  | .get hash buf, regionData => GetSafe S profile hash buf regionData
  | .invalidate _, _ => True
  | .zeroise hash, regionData => ZeroiseSafe S hash regionData
  | .garbageCollect, regionData => CollectSafe S regionData

/-! ## Looking at a region -/

def Verdict.Keeps (v : Verdict ρ) : Prop :=
  ∀ result, v ≠ .finished result false

@[simp]
theorem Verdict.keeps_finished (result : ρ) (putsBack : Bool) :
    (finished result putsBack).Keeps ↔ putsBack := by
  cases putsBack
  · exact iff_of_false (fun h => h result rfl) Bool.false_ne_true
  · exact iff_of_true (fun _ heq => nomatch heq) rfl

@[simp]
theorem Verdict.keeps_next (e : ErrorCode) : (next e : Verdict ρ).Keeps := fun _ heq => nomatch heq

@[simp]
theorem Verdict.keeps_write (offset : ℕ) (bytes : List Byte) :
    (write offset bytes : Verdict ρ).Keeps :=
  fun _ heq => nomatch heq

@[simp]
theorem Verdict.keeps_aborts (abort : Abort) : (aborts abort : Verdict ρ).Keeps :=
  fun _ heq => nomatch heq

section Verdicts

variable {regionData : List Byte} {hash : BitVec 64}

theorem readValue_putsBack {buf : List Byte} {offset length len : ℕ}
    (hregion : regionData.length = S) (hroom : offset + headerLength < S) :
    (readValue buf regionData offset length len).2 ↔
      if buf.length < len then offset + headerLength + buf.length ≤ S
      else offset + headerLength + len ≤ S ∧ offset + length ≤ S := by
  have hcopied : ∀ n, ((regionData.drop (offset + headerLength)).take n).length =
      min n (S - (offset + headerLength)) := by
    intro n
    rw [length_take, length_drop, hregion]
  rw [readValue, if_neg (by omega)]
  simp only [hcopied]
  by_cases hsmall : buf.length < len
  · simp only [if_pos hsmall, decide_eq_true_eq]
    omega
  simp only [if_neg hsmall]
  split_ifs with hshort hcross hsum
  all_goals
    simp
    omega

section

variable (hregion : regionData.length = S)
include hregion

theorem getVerdict_keeps_iff (profile : Arithmetic.Profile) (buf : List Byte) :
    (getVerdict S profile hash buf regionData).Keeps ↔ GetSafe S profile hash buf regionData := by
  unfold getVerdict GetSafe
  match hfind : findKeyOffset S hash regionData with
  | .ok (offset, length) =>
    have hroom := (findLoop_lt hfind).1
    cases hlen : valueLength profile length with
    | error abort =>
      simp only [hlen]
      refine iff_of_true (keeps_aborts abort) ?_
      intro o n len heq hlen'
      cases heq
      rw [hlen] at hlen'
      cases hlen'
    | ok len =>
      simp only [hlen, keeps_finished]
      rw [readValue_putsBack hregion hroom]
      constructor
      · intro hinside o n len' heq hlen'
        cases heq
        cases hlen.symm.trans hlen'
        exact hinside
      · exact fun h => h offset length len rfl hlen
  | .error (true, e) =>
    exact iff_of_true (keeps_next e) fun _ _ _ heq => nomatch heq
  | .error (false, e) =>
    exact iff_of_true ((keeps_finished _ _).mpr rfl) fun _ _ _ heq => nomatch heq

theorem getElem?_len0 {offset : ℕ} (hroom : offset + headerLength < S) :
    ∃ len0, regionData[offset + lenOffset]? = some len0 := by
  refine ⟨_, getElem?_eq_getElem ?_⟩
  have h11 : headerLength = 11 := rfl
  rw [lenOffset]
  omega

theorem invalidateVerdict_keeps : (invalidateVerdict S hash regionData).Keeps := by
  unfold invalidateVerdict
  match hfind : findKeyOffset S hash regionData with
  | .ok (offset, length) =>
    obtain ⟨_, hlen0⟩ := getElem?_len0 hregion (findLoop_lt hfind).1
    simp only [hlen0]
    exact keeps_write _ _
  | .error (true, e) => exact keeps_next e
  | .error (false, e) => exact (keeps_finished _ _).mpr rfl

theorem zeroiseVerdict_keeps_iff :
    (zeroiseVerdict S hash regionData).Keeps ↔ ZeroiseSafe S hash regionData := by
  unfold zeroiseVerdict ZeroiseSafe
  match hfind : findKeyOffset S hash regionData with
  | .ok (offset, length) =>
    obtain ⟨_, hlen0⟩ := getElem?_len0 hregion (findLoop_lt hfind).1
    simp only [hlen0, hregion]
    by_cases hcross : S < offset + length + headerLength
    · rw [if_pos hcross, keeps_finished]
      refine iff_of_false Bool.false_ne_true fun h => ?_
      have hinside := h offset length rfl
      omega
    rw [if_neg hcross]
    refine iff_of_true (keeps_write _ _) fun o n heq => ?_
    cases heq
    exact Nat.not_lt.mp hcross
  | .error (true, e) =>
    exact iff_of_true (keeps_next e) fun _ _ heq => nomatch heq
  | .error (false, e) =>
    exact iff_of_true ((keeps_finished _ _).mpr rfl) fun _ _ heq => nomatch heq

end

variable {o packageLength : ℕ}

section

variable {o' : ℕ} (h : appendStop S packageLength regionData o = .free o')
include h

theorem appendStop_eq_free : o = o' ∧ regionData[o]? = some 0xFF := by
  unfold appendStop at h
  split_ifs at h with hfull hversion hhash
  cases h
  exact ⟨rfl, not_not.mp hversion⟩

theorem not_walks_of_free : ¬ AppendWalks S packageLength regionData o := by
  rintro ⟨-, hversion⟩
  rw [(appendStop_eq_free h).2] at hversion
  exact absurd hversion (by decide)

end

theorem appendStop_keeps {e : ErrorCode} {keepsBuffer : Bool}
    (h : appendStop S packageLength regionData o = .failed e keepsBuffer) : keepsBuffer := by
  unfold appendStop at h
  split_ifs at h
  · cases h
    rfl
  · cases h
    rfl

section

variable (hregion : regionData.length = S)
include hregion

theorem appendVerdict_keeps_iff (value : List Byte) :
    (appendVerdict S hash value regionData).Keeps ↔ AppendSafe S hash value regionData := by
  unfold appendVerdict AppendSafe
  cases hfind : findKeyOffset S hash regionData with
  | ok found =>
    exact iff_of_true ((keeps_finished _ _).mpr rfl) fun ⟨e, heq⟩ => nomatch heq
  | error e =>
    rcases appendScan_cases hregion (Nat.le_add_right headerLength value.length)
      (Nat.succ_pos S) (by omega : S < S + 1 + 0) with
      ⟨hstalls, hscan⟩ | ⟨o, hreach, hstop, -, hscan⟩
    · simp only [hscan]
      refine iff_of_true (keeps_aborts _) fun _ o hreach hfree => ?_
      exact absurd hstalls (not_stalls_of_stop hreach (not_walks_of_free hfree))
    have hunique : ∀ o', Relation.ReflTransGen
        (Steps (AppendWalks S (headerLength + value.length) regionData)
          (entryLength regionData)) 0 o' →
        appendStop S (headerLength + value.length) regionData o' = .free o' →
        o = o' := fun o' hreach' hfree =>
      stop_unique hreach hstop hreach' (not_walks_of_free hfree)
    have hother : (∀ o', appendStop S (headerLength + value.length) regionData o ≠
        .free o') → AppendSafe S hash value regionData := by
      intro hnot _ o' hreach' hfree
      rw [← hunique o' hreach' hfree] at hfree
      exact absurd hfree (hnot o)
    unfold AppendSafe at hother
    rw [hfind] at hother
    simp only [hscan]
    cases hres : appendStop S (headerLength + value.length) regionData o with
    | nextRegion =>
      exact iff_of_true (keeps_next _) (hother (by simp [hres]))
    | failed e keepsBuffer =>
      obtain rfl := appendStop_keeps hres
      exact iff_of_true ((keeps_finished _ _).mpr rfl) (hother (by simp [hres]))
    | diverges =>
      exact iff_of_true (keeps_aborts _) (hother (by simp [hres]))
    | free o' =>
      obtain ⟨rfl, -⟩ := appendStop_eq_free hres
      by_cases hsmall : S < o + (headerLength + value.length) + checkSumLen
      · simp only [if_pos hsmall, keeps_finished, Bool.false_eq_true, false_iff]
        intro hall
        have hroom := hall ⟨e, rfl⟩ o hreach hres
        omega
      simp only [if_neg hsmall]
      refine iff_of_true (keeps_write _ _) fun _ o' hreach' hfree => ?_
      rw [← hunique o' hreach' hfree]
      exact Nat.not_lt.mp hsmall

theorem collectStop_eq_failed_iff {found : Bool} :
    (∃ e, collectStop S regionData o found = .failed e false) ↔
      regionData[o]? = some version ∧ S ≤ o + 2 := by
  have hne : (some version : Option Byte) ≠ some 0xFF := by decide
  constructor
  · rintro ⟨e, h⟩
    unfold collectStop at h
    split_ifs at h with hend hfree hfound hversion hshort
    · cases h
    · exact ⟨not_not.mp hversion, hshort⟩
  · rintro ⟨hversion, hshort⟩
    have hlt : o < regionData.length := (List.getElem?_eq_some_iff.mp hversion).1
    refine ⟨.corruptData, ?_⟩
    rw [collectStop, if_neg (by omega), hversion, if_neg hne, if_neg (not_not.mpr rfl),
      if_pos hshort]

theorem collectScan_keeps_iff :
    (¬ ∃ e, collectScan S regionData (S + 1) 0 false = .failed e false) ↔
      CollectSafe S regionData := by
  rcases collectScan_cases false hregion (Nat.succ_pos S) (by omega : S < S + 1 + 0) with
    ⟨hstalls, hscan⟩ | ⟨o, _, hreach, hstop, -, hscan⟩
  · rw [hscan]
    refine iff_of_true (fun ⟨e, heq⟩ => nomatch heq) fun o hreach _ => ?_
    -- a walk that stalls does not come to where it would stop
    by_contra hshort
    exact not_stalls_of_stop hreach (fun hwalks => hshort hwalks.1) hstalls
  rw [hscan, collectStop_eq_failed_iff hregion]
  constructor
  · intro hkeeps o' hreach' hversion
    by_contra hshort
    have hsame := stop_unique hreach hstop hreach' fun hwalks => hshort hwalks.1
    subst hsame
    exact hkeeps ⟨hversion, Nat.not_lt.mp hshort⟩
  · rintro hall ⟨hversion, hshort⟩
    have hroom := hall o hreach hversion
    omega

end

end Verdicts

/-! ## Operations -/

def Device.Delivers (d : Device S) (regionData : List Byte) : Prop :=
  ∃ i, (d.replies i).error = none ∧ List.ofFn (d.replies i).data = regionData

/-- The regions that are delivered have the property, and so has what is in the
buffer where an operation goes on with it. -/
structure Device.Meets (d : Device S) (Resumes : State → Prop) (P : List Byte → Prop) : Prop where
  delivered : ∀ regionData, d.Delivers regionData → P regionData
  resumed : Resumes d.state → ∀ buffer, d.readBuffer = some buffer → P (List.ofFn buffer)

def KeyOperation.Resumes (k : KeyOperation ρ) (s : State) : Prop :=
  ∃ r, k.resumes s = .ok (some r)

theorem KeyOperation.Resumes.ne_none {k : KeyOperation ρ} {s : State} (h : k.Resumes s)
    (hnone : k.resumes .none = .ok none) : s ≠ .none := by
  rintro rfl
  obtain ⟨r, hr⟩ := h
  rw [hnone] at hr
  cases hr

/-- The answers to come of `d'` are among those of `d`. -/
def Device.Later (d d' : Device S) : Prop :=
  ∃ n, ∀ i, d'.replies i = d.replies (n + i)

namespace Device

variable {d d' d'' : Device S}

theorem Later.refl (d : Device S) : d.Later d := ⟨0, fun i => by rw [Nat.zero_add]⟩

theorem Later.trans (h : d.Later d') (h' : d'.Later d'') : d.Later d'' := by
  obtain ⟨n, hn⟩ := h
  obtain ⟨m, hm⟩ := h'
  exact ⟨n + m, fun i => by rw [hm, hn, Nat.add_assoc]⟩

theorem later_answered (h : d'.replies = fun i => d.replies (i + 1)) : d.Later d' :=
  ⟨1, fun i => by rw [h, Nat.add_comm]⟩

theorem Later.delivers (h : d.Later d') {regionData : List Byte}
    (hdelivers : d'.Delivers regionData) : d.Delivers regionData := by
  obtain ⟨n, hn⟩ := h
  obtain ⟨i, herror, hdata⟩ := hdelivers
  exact ⟨n + i, by rw [← hn]; exact herror, by rw [← hn]; exact hdata⟩

theorem length_of_delivers {regionData : List Byte} (h : d.Delivers regionData) :
    regionData.length = S := by
  obtain ⟨-, -, rfl⟩ := h
  exact length_ofFn

section

variable {Resumes Resumes' : State → Prop} {P Q : List Byte → Prop}

theorem Later.meets (h : d.Later d')
    (hdelivered : ∀ regionData, d.Delivers regionData → P regionData)
    (hstate : ¬ Resumes d'.state) : d'.Meets Resumes P :=
  ⟨fun _ hdelivers => hdelivered _ (h.delivers hdelivers), fun hr => absurd hr hstate⟩

theorem Meets.mono (h : d.Meets Resumes P) (hstate : Resumes' d.state → Resumes d.state)
    (himp : ∀ {regionData}, regionData.length = S → P regionData → Q regionData) :
    d.Meets Resumes' Q :=
  ⟨fun _ hdelivers => himp (length_of_delivers hdelivers) (h.delivered _ hdelivers),
    fun hr buffer hb => himp length_ofFn (h.resumed (hstate hr) buffer hb)⟩

end

/-- The state is as it was, or reset, or says what the operation is waiting for. -/
def StateOf (waiting : ℕ → State) (d d' : Device S) : Prop :=
  d'.state = d.state ∨ d'.state = .none ∨ ∃ r, d'.state = waiting r

theorem fetch_cases (d : Device S) (waiting : ℕ → State) (resumed : Bool) (buffer : RegionData S) :
    (∃ e d', d.fetch waiting resumed buffer = .error (e, d') ∧
      d'.readBuffer.isSome ∧ d.Later d' ∧ StateOf waiting d d') ∨
    ∃ data d', d.fetch waiting resumed buffer = .ok (data, d') ∧ d.Later d' ∧ d'.state = d.state ∧
      ((resumed ∧ data = buffer) ∨ d.Delivers (ofFn data)) := by
  unfold fetch
  cases resumed with
  | true => exact .inr ⟨buffer, d.taken, rfl, .refl d, rfl, .inl ⟨rfl, rfl⟩⟩
  | false =>
    cases herror : (d.replies 0).error with
    | none =>
      exact .inr ⟨_, _, rfl, later_answered rfl, rfl, .inr ⟨0, herror, rfl⟩⟩
    | some e =>
      refine .inl ⟨e, _, rfl, ?_, ?_, ?_⟩
      · cases e <;> rfl
      · apply later_answered
        cases e <;> rfl
      · cases e with
        | readNotReady r => exact .inr (.inr ⟨r, rfl⟩)
        | _ => exact .inl rfl

variable {k : KeyOperation ρ} {region : ℕ} {hash : BitVec 64}
  {freed : Except ErrorCode ℕ}

theorem keyLoop_keeps {fuel : ℕ} {offset : ℤ} {result : ρ}
    (h : keyLoop k region fuel offset d = .ok (result, d'))
    (hmeets : d.Meets k.Resumes fun regionData => (k.examine regionData).Keeps)
    (hnone : k.resumes .none = .ok none) :
    d'.readBuffer.isSome ∧ d.Later d' ∧ StateOf k.waiting d d' := by
  induction fuel generalizing d offset with
  | zero => cases h
  | succ fuel ih =>
    rw [keyLoop] at h
    split at h
    next => cases h
    next => cases h
    next resumed buffer hstate hbuffer =>
    rcases fetch_cases d k.waiting resumed.isSome buffer with
      ⟨e, d1, hfetch, hkept⟩ | ⟨data, d1, hfetch, hlater, hsame, hdata⟩
    · rw [hfetch] at h
      cases h
      exact hkept
    rw [hfetch] at h
    simp only at h
    have hkeeps : (k.examine (ofFn data)).Keeps := by
      rcases hdata with ⟨hsome, rfl⟩ | hdelivers
      · obtain ⟨r, rfl⟩ := isSome_iff_exists.mp hsome
        exact hmeets.resumed ⟨r, hstate⟩ data hbuffer
      · exact hmeets.delivered _ hdelivers
    split at h
    next e hverdict =>
      split at h
      next o hnext =>
        have hlater' : d.Later ((d1.putBack data).setState .none) := hlater
        have hreset : ((d1.putBack data).setState .none).state = .none := rfl
        obtain ⟨hkept, hlast, hstates⟩ := ih h
          (hlater'.meets hmeets.delivered fun hr => hr.ne_none hnone rfl)
        refine ⟨hkept, hlater'.trans hlast, .inr ?_⟩
        rcases hstates with hbefore | hrest
        · exact .inl (hbefore.trans hreset)
        · exact hrest
      cases h
      exact ⟨rfl, hlater, .inl hsame⟩
    next result' putsBack hverdict =>
      rw [hverdict, keeps_finished] at hkeeps
      subst hkeeps
      cases h
      exact ⟨rfl, hlater, .inl hsame⟩
    next o bytes hverdict =>
      cases h
      exact ⟨rfl, hlater.trans (later_answered rfl), .inl hsame⟩
    next => cases h

theorem runKey_keeps {result : ρ} (h : d.runKey k hash = .ok (result, d'))
    (hmeets : d.Meets k.Resumes fun regionData => (k.examine regionData).Keeps)
    (hnone : k.resumes .none = .ok none) :
    d'.readBuffer.isSome ∧ d.Later d' ∧ StateOf k.waiting d d' := by
  unfold runKey at h
  split at h
  · cases h
  · exact keyLoop_keeps h hmeets hnone

theorem appendKey_keeps {value : List Byte} {result : Except ErrorCode SuccessCode}
    (hbuffer : d.readBuffer.isSome) (h : d.appendKey hash value = .ok (result, d'))
    (hmeets : d.Meets (appendOperation S hash value).Resumes fun regionData =>
      headerLength + value.length + checkSumLen < 0xFFF → AppendSafe S hash value regionData) :
    d'.readBuffer.isSome := by
  unfold appendKey at h
  split at h
  next => cases h
  simp only at h
  split_ifs at h with hlarge hmax
  · cases h
    exact hbuffer
  have hvalue : Storable value := by omega
  exact (runKey_keeps h (hmeets.mono id fun hlen hsafe =>
      (appendVerdict_keeps_iff hlen value).mpr (hsafe hvalue)) rfl).1

/-! ## Setting up -/

theorem eraseRegions_keeps {regions : List ℕ} :
    (∃ e region d', d.eraseRegions regions = .error (e, region, d') ∧
      d'.readBuffer = d.readBuffer) ∨
    ∃ d', d.eraseRegions regions = .ok d' ∧ d'.readBuffer = d.readBuffer ∧ d.Later d' := by
  induction regions generalizing d with
  | nil => exact .inr ⟨d, rfl, rfl, .refl d⟩
  | cons region regions ih =>
    rw [eraseRegions]
    cases herror : (d.replies 0).error with
    | some e => exact .inl ⟨e, region, _, rfl, rfl⟩
    | none =>
      rcases @ih d.answered with ⟨e, r, d', herase, hsame⟩ | ⟨d', herase, hsame, hlater⟩
      · exact .inl ⟨e, r, d', herase, hsame⟩
      · exact .inr ⟨d', herase, hsame, (later_answered rfl).trans hlater⟩

variable {profile : Arithmetic.Profile} {mainKey : BitVec 64}
  {result : Except ErrorCode SuccessCode}

section

variable (hbuffer : d.readBuffer.isSome = true)
include hbuffer

theorem saveMainKey_keeps (h : d.saveMainKey mainKey = .ok (result, d'))
    (hmeets : d.Meets (appendOperation S mainKey []).Resumes (AppendSafe S mainKey [])) :
    d'.readBuffer.isSome := by
  have hkeeps : ∀ ret d1, d.appendKey mainKey [] = .ok (ret, d1) →
      d1.readBuffer.isSome := fun ret d1 happend =>
    appendKey_keeps hbuffer happend (hmeets.mono id fun _ hsafe _ => hsafe)
  unfold saveMainKey at h
  split at h
  next => cases h
  all_goals
    next happend =>
      have hkept := hkeeps _ _ happend
      cases h
      exact hkept

theorem eraseFrom_keeps {start : ℕ} (h : d.eraseFrom mainKey start = .ok (result, d'))
    (hdelivered : ∀ regionData, d.Delivers regionData → AppendSafe S mainKey [] regionData) :
    d'.readBuffer.isSome := by
  unfold eraseFrom at h
  rcases @eraseRegions_keeps _ d ((range d.numRegion).drop start) with
    ⟨e, _, d1, herase, hsame⟩ | ⟨d1, herase, hsame, hlater⟩
  · rw [herase] at h
    cases h
    exact hsame ▸ hbuffer
  rw [herase] at h
  have hlater' : d.Later (d1.setState (.init .eraseComplete)) := hlater
  refine saveMainKey_keeps (hsame ▸ hbuffer) h (hlater'.meets hdelivered ?_)
  rintro ⟨r, hr⟩
  cases hr

theorem setUp_keeps (h : d.setUp mainKey = .ok (result, d'))
    (hmeets : d.Meets (appendOperation S mainKey []).Resumes (AppendSafe S mainKey [])) :
    d'.readBuffer.isSome := by
  unfold setUp at h
  split at h
  iterate 3 next => exact eraseFrom_keeps hbuffer h hmeets.delivered
  next => exact saveMainKey_keeps hbuffer h hmeets

end

theorem findMainKey_keeps (h : d.findMainKey profile mainKey = .ok (result, d'))
    (hstate : ¬ (appendOperation S mainKey []).Resumes d.state)
    (hmeets : d.Meets (· ≠ .none) (Safe S profile (.initialise mainKey))) :
    d'.readBuffer.isSome := by
  have hget : ∀ ret d1, d.getKey profile mainKey [] = .ok (ret, d1) →
      d1.readBuffer.isSome ∧ d.Later d1 ∧ StateOf State.getKey d d1 := by
    intro ret d1 hget
    exact runKey_keeps hget (hmeets.mono (fun hr => hr.ne_none rfl) fun hlen hsafe =>
      (getVerdict_keeps_iff hlen profile []).mpr hsafe.1) rfl
  unfold findMainKey at h
  split at h
  next => cases h
  next hfound =>
    cases h
    exact (hget _ _ hfound).1
  next hwait =>
    cases h
    exact (hget _ _ hwait).1
  next d1 _ hmissing =>
  obtain ⟨hkept, hlater, hstates⟩ := hget _ _ hmissing
  refine setUp_keeps hkept h
    (hlater.meets (fun _ hd => (hmeets.delivered _ hd).2) fun hresumes => ?_)
  rcases hstates with hsame | hnone | ⟨r, hwait⟩
  · exact hstate (hsame ▸ hresumes)
  · exact hresumes.ne_none rfl hnone
  obtain ⟨_, hr⟩ := hresumes
  rw [hwait] at hr
  cases hr

theorem initialise_keeps (hbuffer : d.readBuffer.isSome)
    (h : d.initialise profile mainKey = .ok (result, d'))
    (hmeets : d.Meets (· ≠ .none) (Safe S profile (.initialise mainKey))) :
    d'.readBuffer.isSome := by
  unfold initialise at h
  split at h
  iterate 2 next hstate =>
    refine findMainKey_keeps h ?_ hmeets
    rw [hstate]
    rintro ⟨r, hr⟩
    cases hr
  next =>
    exact setUp_keeps hbuffer h (hmeets.mono (fun hr => hr.ne_none rfl) fun _ hsafe => hsafe.2)
  next => cases h

/-! ## Garbage collection -/

theorem garbageCollectRegion_keeps {flashFreed : ℕ}
    (h : d.garbageCollectRegion region flashFreed = .ok (freed, d'))
    (hmeets : d.Meets (· ≠ .none) (CollectSafe S)) : d'.readBuffer.isSome ∧
      ∀ n, freed = .ok n → d'.Meets (· ≠ .none) (CollectSafe S) := by
  unfold garbageCollectRegion at h
  split at h
  next => cases h
  next buffer hbuffer =>
  rcases fetch_cases d (fun region => .garbageCollect (.readRegion region flashFreed))
    (d.state = .garbageCollect (.readRegion region flashFreed)) buffer with
    ⟨e, d1, hfetch, hkept, hlater, -⟩ | ⟨data, d1, hfetch, hlater, -, hdata⟩
  · rw [hfetch] at h
    cases h
    exact ⟨hkept, fun n heq => nomatch heq⟩
  have hsafe : CollectSafe S (ofFn data) := by
    rcases hdata with ⟨hstate, rfl⟩ | hdelivers
    · refine hmeets.resumed ?_ data hbuffer
      rw [of_decide_eq_true hstate]
      simp
    · exact hmeets.delivered _ hdelivers
  have hafter {d'' : Device S} (hlater' : d.Later d'') (hdata : d''.readBuffer = some data) :
      d''.readBuffer.isSome ∧ ∀ n, freed = .ok n → d''.Meets (· ≠ .none) (CollectSafe S) := by
    refine ⟨hdata ▸ rfl, fun _ _ => ⟨fun _ hdelivers =>
      hmeets.delivered _ (hlater'.delivers hdelivers), fun _ buffer hb => ?_⟩⟩
    cases hdata.symm.trans hb
    exact hsafe
  rw [hfetch] at h
  simp only at h
  split at h
  next =>
    cases h
    exact hafter hlater rfl
  next e keepsBuffer hscan =>
    have hkeeps : keepsBuffer := by
      by_contra hlost
      rw [Bool.not_eq_true] at hlost
      subst hlost
      exact (collectScan_keeps_iff length_ofFn).mpr hsafe ⟨e, hscan⟩
    subst hkeeps
    cases h
    exact hafter hlater rfl
  next => cases h
  next =>
    have hlater' := hlater.trans (later_answered rfl : d1.Later d1.answered)
    split at h
    all_goals
      cases h
      exact hafter hlater' rfl

theorem collectLoop_keeps {regions : List ℕ} {flashFreed : ℕ} (hbuffer : d.readBuffer.isSome)
    (h : collectLoop regions flashFreed d = .ok (freed, d'))
    (hmeets : d.Meets (· ≠ .none) (CollectSafe S)) : d'.readBuffer.isSome := by
  induction regions generalizing d flashFreed with
  | nil =>
    cases h
    exact hbuffer
  | cons region regions ih =>
    rw [collectLoop] at h
    split at h
    next => cases h
    next n d1 hcollect =>
      obtain ⟨hkept, hnext⟩ := garbageCollectRegion_keeps hcollect hmeets
      exact ih hkept h (hnext n rfl)
    next hcollect =>
    cases h
    exact (garbageCollectRegion_keeps hcollect hmeets).1

theorem garbageCollect_keeps (hbuffer : d.readBuffer.isSome)
    (h : d.garbageCollect = .ok (freed, d'))
    (hmeets : d.Meets (· ≠ .none) (CollectSafe S)) : d'.readBuffer.isSome := by
  unfold garbageCollect at h
  split at h
  · cases h
  split at h
  next => exact collectLoop_keeps hbuffer h hmeets
  next => exact collectLoop_keeps hbuffer h hmeets
  next => exact collectLoop_keeps hbuffer h hmeets
  next => cases h

theorem map_snd_eq_ok {α : Type} {x : Except Abort (α × Device S)}
    (h : x.map Prod.snd = .ok d') : ∃ a, x = .ok (a, d') := by
  match x, h with
  | .ok (a, _), rfl => exact ⟨a, rfl⟩

theorem after_keeps {operation : Operation} (hbuffer : d.readBuffer.isSome)
    (h : d.after profile operation = .ok d')
    (hmeets : d.Meets (· ≠ .none) (Safe S profile operation)) : d'.readBuffer.isSome := by
  cases operation with
  | initialise mainKey =>
    obtain ⟨result, h⟩ := map_snd_eq_ok h
    exact initialise_keeps hbuffer h hmeets
  | append hash value =>
    obtain ⟨result, h⟩ := map_snd_eq_ok h
    exact appendKey_keeps hbuffer h (hmeets.mono (fun hr => hr.ne_none rfl) fun _ => id)
  | get hash buf =>
    obtain ⟨result, h⟩ := map_snd_eq_ok h
    exact (runKey_keeps h (hmeets.mono (fun hr => hr.ne_none rfl) fun hlen =>
      (getVerdict_keeps_iff hlen profile buf).mpr) rfl).1
  | invalidate hash =>
    obtain ⟨result, h⟩ := map_snd_eq_ok h
    exact (runKey_keeps h (hmeets.mono (fun hr => hr.ne_none rfl) fun hlen _ =>
      invalidateVerdict_keeps hlen) rfl).1
  | zeroise hash =>
    obtain ⟨result, h⟩ := map_snd_eq_ok h
    exact (runKey_keeps h (hmeets.mono (fun hr => hr.ne_none rfl) fun hlen =>
      (zeroiseVerdict_keeps_iff hlen).mpr) rfl).1
  | garbageCollect =>
    obtain ⟨_, h⟩ := map_snd_eq_ok h
    exact garbageCollect_keeps hbuffer h hmeets

/-! ## Runs -/

/-- A call of an operation, with the answers of the controller to it; and what the
asynchronous interface does when the controller has become ready. -/
inductive Event (S : ℕ) where
  | call (operation : Operation) (replies : ℕ → Reply S)
  | setReadBuffer (data : RegionData S)
  | resetState

def react (profile : Arithmetic.Profile) (d : Device S) : Event S → Except Abort (Device S)
  | .call operation replies => ({ d with replies := replies }).after profile operation
  | .setReadBuffer data =>
    match d.readBuffer with
    | none => .error .panic
    | some _ => .ok (d.putBack data)
  | .resetState => .ok (d.setState .none)

/-- The regions that the controller delivers to a call are harmless for it, and so
is what the buffer holds if an operation is pending. -/
def Harmless (profile : Arithmetic.Profile) (d : Device S) : Event S → Prop
  | .call operation replies =>
    (∀ i, (replies i).error = none → Safe S profile operation (List.ofFn (replies i).data)) ∧
    (d.state ≠ .none → ∀ buffer, d.readBuffer = some buffer →
      Safe S profile operation (List.ofFn buffer))
  | _ => True

inductive HarmlessRun (profile : Arithmetic.Profile) (d0 : Device S) : Device S → Prop where
  | start : HarmlessRun profile d0 d0
  | event {d d' : Device S} {e : Event S} (run : HarmlessRun profile d0 d)
      (harmless : d.Harmless profile e) (returns : d.react profile e = .ok d') :
      HarmlessRun profile d0 d'

theorem react_keeps {e : Event S} (hbuffer : d.readBuffer.isSome)
    (hharmless : d.Harmless profile e) (h : d.react profile e = .ok d') : d'.readBuffer.isSome := by
  cases e with
  | call operation replies =>
    have hcall : ({ d with replies := replies } : Device S).after profile operation = .ok d' := h
    have hbuffer' : ({ d with replies := replies } : Device S).readBuffer.isSome := hbuffer
    refine after_keeps hbuffer' hcall ⟨fun regionData hdelivers => ?_, hharmless.2⟩
    obtain ⟨i, herror, rfl⟩ := hdelivers
    exact hharmless.1 i herror
  | setReadBuffer data =>
    obtain ⟨_, hsome⟩ := isSome_iff_exists.mp hbuffer
    simp only [react, hsome] at h
    cases h
    rfl
  | resetState =>
    cases h
    exact hbuffer

theorem HarmlessRun.keeps {d0 : Device S} (h : HarmlessRun profile d0 d)
    (hbuffer : d0.readBuffer.isSome) : d.readBuffer.isSome := by
  induction h with
  | start => exact hbuffer
  | event run harmless returns ih => exact react_keeps ih harmless returns

/-! ## Regions that do harm -/

def Reads (d : Device S) : Operation → Prop
  | .initialise _ => False
  | .append hash _ | .get hash _ | .invalidate hash | .zeroise hash =>
    ∃ region, d.getRegion hash = .ok region
  | .garbageCollect => 0 < d.numRegion

theorem Verdict.exists_of_not_keeps {v : Verdict ρ} (h : ¬ v.Keeps) :
    ∃ result, v = .finished result false := by
  by_contra hnone
  exact h fun result heq => hnone ⟨result, heq⟩

theorem runKey_loses (hstate : d.state = .none) (hnone : k.resumes .none = .ok none)
    (hbuffer : d.readBuffer.isSome) (hregion : d.getRegion hash = .ok region)
    (hreply : (d.replies 0).error = none) (hlost : ¬ (k.examine (ofFn (d.replies 0).data)).Keeps) :
    ∃ result d', d.runKey k hash = .ok (result, d') ∧ d'.readBuffer = none := by
  obtain ⟨buffer, hbuffer⟩ := isSome_iff_exists.mp hbuffer
  obtain ⟨result, hverdict⟩ := Verdict.exists_of_not_keeps hlost
  have hfetch : d.fetch k.waiting (isSome (none : Option ℕ)) buffer =
      .ok ((d.replies 0).data, d.taken.answered) := by
    rw [fetch, isSome_none, if_neg Bool.false_ne_true, hreply]
  refine ⟨result, d.taken.answered, ?_, rfl⟩
  rw [runKey, hregion]
  simp only [keyLoop, hstate, hnone, hbuffer, hfetch, hverdict]
  rfl

theorem after_loses {operation : Operation} (hstate : d.state = .none)
    (hbuffer : d.readBuffer.isSome) (hreads : d.Reads operation)
    (hreply : (d.replies 0).error = none)
    (hharm : ¬ Safe S profile operation (ofFn (d.replies 0).data)) :
    ∃ d', d.after profile operation = .ok d' ∧ d'.readBuffer = none := by
  cases operation with
  | initialise mainKey => exact absurd hreads id
  | append hash value =>
    obtain ⟨region, hregion⟩ := hreads
    obtain ⟨hvalue, hharm⟩ := Classical.not_imp.mp hharm
    obtain ⟨result, d', hrun, hlost⟩ := runKey_loses
      (k := appendOperation S hash value) hstate rfl hbuffer hregion hreply
      (mt (appendVerdict_keeps_iff length_ofFn value).mp hharm)
    refine ⟨d', ?_, hlost⟩
    rw [after, appendKey, hregion]
    rw [if_neg (by omega), if_neg (by omega), hrun]
    rfl
  | get hash buf =>
    obtain ⟨region, hregion⟩ := hreads
    obtain ⟨result, d', hrun, hlost⟩ := runKey_loses
      (k := getOperation S profile hash buf) hstate rfl hbuffer hregion hreply
      (mt (getVerdict_keeps_iff length_ofFn profile buf).mp hharm)
    exact ⟨d', by rw [after, getKey, hrun]; rfl, hlost⟩
  | invalidate hash => exact absurd trivial hharm
  | zeroise hash =>
    obtain ⟨region, hregion⟩ := hreads
    obtain ⟨result, d', hrun, hlost⟩ := runKey_loses
      (k := zeroiseOperation S hash) hstate rfl hbuffer hregion hreply
      (mt (zeroiseVerdict_keeps_iff length_ofFn).mp hharm)
    exact ⟨d', by rw [after, zeroiseKey, hrun]; rfl, hlost⟩
  | garbageCollect =>
    obtain ⟨_, hbuffer⟩ := isSome_iff_exists.mp hbuffer
    have hscan := mt (collectScan_keeps_iff length_ofFn).mp hharm
    obtain ⟨e, hscan⟩ := not_not.mp hscan
    have hS : S ≠ 0 := by
      rintro rfl
      exact absurd hreads (by simp [Reads, numRegion])
    obtain ⟨n, hn⟩ := Nat.exists_eq_succ_of_ne_zero (Nat.pos_iff_ne_zero.mp hreads)
    refine ⟨d.taken.answered, ?_, rfl⟩
    rw [after, garbageCollect, if_neg hS]
    rw [hn, range_succ_eq_map, collectLoop, garbageCollectRegion, hbuffer]
    have hfresh : decide (State.none = State.garbageCollect (.readRegion 0 0)) = false := rfl
    simp only [hstate, fetch, hfresh, Bool.false_eq_true, if_false, hreply, hscan]
    rfl

/-- In every run in which all regions that are delivered to an operation are
harmless for it, each call that returns leaves the read buffer in place; and one
that reads a region that is not harmless returns without it. -/
theorem read_buffer_kept (profile : Arithmetic.Profile) :
    (∀ d0 d : Device S, d0.readBuffer.isSome = true → HarmlessRun profile d0 d →
      d.readBuffer.isSome = true) ∧ (∀ (d : Device S) (operation : Operation), d.state = .none →
      d.readBuffer.isSome = true → d.Reads operation → (d.replies 0).error = none →
      ¬ Safe S profile operation (List.ofFn (d.replies 0).data) →
      ∃ d', d.after profile operation = .ok d' ∧ d'.readBuffer = none) :=
  ⟨fun _ _ hbuffer hrun => hrun.keeps hbuffer, fun _ _ hstate hbuffer hreads hreply hharm =>
      after_loses hstate hbuffer hreads hreply hharm⟩

def deviceOf (bytes : List Byte) : Device 32 where
  flashSize := 32
  state := .none
  readBuffer := some fun _ => 0
  replies := fun _ => { error := none, data := fun i => bytes.getD i 0xFF }

/-- An object of 16 bytes is zeroised, and the region has room behind it. -/
theorem read_buffer_kept_object : (deviceOf (objectBytes 5 [1])).readBuffer.isSome = true ∧
      ∃ d, HarmlessRun .dev (deviceOf (objectBytes 5 [1])) d ∧ d.readBuffer.isSome = true := by
  let d0 := deviceOf (objectBytes 5 [1])
  have hfound : findKeyOffset 32 5 (List.ofFn (d0.replies 0).data) = .ok (0, 16) := by
    decide +kernel
  have hsafe : Safe 32 .dev (.zeroise 5) (List.ofFn (d0.replies 0).data) := by
    intro offset length h
    cases hfound.symm.trans h
    decide
  have hreturns : (d0.react .dev (.call (.zeroise 5) d0.replies)).isOk := by decide +kernel
  cases hreact : d0.react .dev (.call (.zeroise 5) d0.replies) with
  | error abort =>
    rw [hreact] at hreturns
    cases hreturns
  | ok d =>
    have hharmless : d0.Harmless .dev (.call (.zeroise 5) d0.replies) :=
      ⟨fun _ _ => hsafe, fun h => absurd rfl h⟩
    have hrun : HarmlessRun .dev d0 d := .event .start hharmless hreact
    exact ⟨rfl, d, hrun, (read_buffer_kept .dev).1 d0 d rfl hrun⟩

/-- Whether the buffer is there after an operation, and how a further one ends. -/
def bufferAfter (d : Device S) (first second : Operation) : Except Abort (Bool × Option Abort) :=
  (d.after .release first).map fun d' =>
    (d'.readBuffer.isSome, match d'.after .release second with
      | .error abort => some abort
      | .ok _ => none)

/-- An object of 25 bytes is zeroised; an object is appended for which there are two
bytes too few; an entry that reaches beyond the region is read; and the last byte of
the region looks like the start of an entry. The next call panics. -/
theorem read_buffer_lost : bufferAfter (deviceOf (objectBytes 5 (List.replicate 10 0))) (.zeroise 5)
        (.invalidate 5) = .ok (false, some .panic) ∧
      bufferAfter (deviceOf (objectBytes 5 [1])) (.append 7 [1, 2, 3])
        (.invalidate 5) = .ok (false, some .panic) ∧
      bufferAfter (deviceOf [1, 0x80, 40, 0, 0, 0, 0, 0, 0, 0, 5]) (.get 5
        (List.replicate 30 0)) (.invalidate 5) = .ok (false, some .panic) ∧
      bufferAfter (deviceOf ([1, 0, 31] ++ List.replicate 28 0 ++ [1])) .garbageCollect
        (.invalidate 5) = .ok (false, some .panic) := by
  refine ⟨by decide +kernel, by decide +kernel, by decide +kernel, by decide +kernel⟩

end Device

end TockKernel.TicKV

import TockKernel.TicKV.Store

/-!
# TicKV on any flash

When an operation returns on a flash that holds anything, also what TicKV has
never written. The walks of `append_key` and of the garbage collector over the
entries of a region do not end at an entry whose length is 0, and `get_key`
computes the length of a value that is shorter than nothing.
-/

namespace TockKernel.TicKV

open Relation ReflTransGen List Arithmetic

/-! ## Walks -/

/-- A walk goes from `a` to the end of the entry there. -/
def Steps (walks : ℕ → Prop) (length : ℕ → ℕ) (a b : ℕ) : Prop :=
  walks a ∧ b = a + length a

def Stalls (walks : ℕ → Prop) (length : ℕ → ℕ) (start : ℕ) : Prop :=
  ∃ o, Relation.ReflTransGen (Steps walks length) start o ∧ walks o ∧ length o = 0

section Walks

variable {walks : ℕ → Prop} {length : ℕ → ℕ} {o : ℕ}

theorem not_stalls (h : ¬ walks o) : ¬ Stalls walks length o := by
  rintro ⟨_, hreach, hwalks, -⟩
  rcases cases_head hreach with rfl | ⟨b, hstep, -⟩
  · exact h hwalks
  · exact h hstep.1

theorem stalls_of_zero (hwalks : walks o) (hzero : length o = 0) : Stalls walks length o :=
  ⟨o, .refl, hwalks, hzero⟩

theorem stalls_iff_next (hwalks : walks o) (hpos : length o ≠ 0) :
    Stalls walks length o ↔ Stalls walks length (o + length o) := by
  constructor
  · rintro ⟨o', hreach, hwalks', hzero⟩
    rcases cases_head hreach with rfl | ⟨-, ⟨-, rfl⟩, hrest⟩
    · exact absurd hzero hpos
    · exact ⟨o', hrest, hwalks', hzero⟩
  · rintro ⟨o', hreach, hwalks', hzero⟩
    exact ⟨o', .head ⟨hwalks, rfl⟩ hreach, hwalks', hzero⟩

theorem not_stalls_of_stop (hreach : ReflTransGen (Steps walks length) a o) (hstop : ¬ walks o) :
    ¬ Stalls walks length a := by
  induction hreach using head_induction_on with
  | refl => exact not_stalls hstop
  | @head a _ hstep hrest ih =>
    obtain ⟨hwalks, rfl⟩ := hstep
    by_cases hzero : length a = 0
    · -- the walk would be back where it was
      rw [hzero] at ih
      exact ih
    · rwa [stalls_iff_next hwalks hzero]

end Walks

def entryLength (regionData : List Byte) (offset : ℕ) : ℕ :=
  totalLength (regionData.getD (offset + lenOffset) 0) (regionData.getD (offset + lenOffset + 1) 0)

/-- `append_key` walks over any entry with a place for the object behind its
start. -/
def AppendWalks (S packageLength : ℕ) (regionData : List Byte) (offset : ℕ) : Prop :=
  offset + packageLength < S ∧ regionData[offset]? = some version

def CollectWalks (S : ℕ) (regionData : List Byte) (offset : ℕ) : Prop :=
  offset + 2 < S ∧ regionData[offset]? = some version ∧
    regionData.getD (offset + lenOffset) 0 &&& 0x80 ≠ 0x80

/-- What `append_key` does where it stops walking. -/
def appendStop (S packageLength : ℕ) (regionData : List Byte) (offset : ℕ) : AppendScan :=
  if S ≤ offset + packageLength then
    .nextRegion
  else if regionData[offset]? ≠ some 0xFF then
    .failed .unsupportedVersion true
  else if (regionData.drop (offset + hashOffset)).take 8 ≠ List.replicate 8 0xFF then
    .failed .corruptData true
  else
    .free offset

def collectStop (S : ℕ) (regionData : List Byte) (offset : ℕ) (entryFound : Bool) : CollectScan :=
  if S ≤ offset then
    .erase
  else if regionData[offset]? = some 0xFF then
    if entryFound then .erase else .keep
  else if regionData[offset]? ≠ some version then
    .failed .unsupportedVersion true
  else if S ≤ offset + 2 then
    .failed .corruptData false
  else
    .keep

section Scans

variable {S packageLength : ℕ} {regionData : List Byte} {fuel offset : ℕ}

theorem getElem?_eq_getD (h : i < regionData.length) :
    regionData[i]? = some (regionData.getD i 0) := by
  rw [getD_eq_getElem?_getD, getElem?_eq_getElem h]
  rfl

theorem differsAt_eq (error : ε) {i : ℕ} (expected : List Byte)
    (h : i + expected.length ≤ regionData.length) : differsAt regionData error i expected =
      .ok (decide ((regionData.drop i).take expected.length ≠ expected)) := by
  induction expected generalizing i with
  | nil => simp [differsAt]
  | cons e expected ih =>
    have hi : i < regionData.length := by
      simp at h
      omega
    rw [differsAt, byteAt, getElem?_eq_getElem hi]
    simp only [length_cons] at h ⊢
    simp only [drop_eq_getElem_cons hi, take_succ_cons]
    change (if regionData[i] ≠ e then _ else _) = _
    by_cases hbyte : regionData[i] = e
    · rw [ih (by omega)]
      simp [hbyte]
    simp [hbyte]
    rfl

section

variable (hlen : regionData.length = S) (hheader : headerLength ≤ packageLength)
include hlen hheader

theorem appendScan_walks (hwalks : AppendWalks S packageLength regionData offset) :
    appendScan S packageLength regionData (fuel + 1) offset =
      appendScan S packageLength regionData fuel (offset + entryLength regionData offset) := by
  obtain ⟨hroom, hversion⟩ := hwalks
  have h11 : headerLength = 11 := rfl
  have h0 : offset + lenOffset < regionData.length := by
    rw [lenOffset]
    omega
  have h1 : offset + lenOffset + 1 < regionData.length := by
    rw [lenOffset]
    omega
  rw [appendScan, if_neg (by omega)]
  simp only [versionOffset, Nat.add_zero, hversion, getElem?_eq_getD h0, getElem?_eq_getD h1]
  rw [if_pos (by decide), if_neg (by simp), entryLength]

theorem appendScan_stops (hwalks : ¬ AppendWalks S packageLength regionData offset) :
    appendScan S packageLength regionData (fuel + 1) offset =
      appendStop S packageLength regionData offset := by
  have h11 : headerLength = 11 := rfl
  rw [appendScan, appendStop]
  by_cases hfull : S ≤ offset + packageLength
  · rw [if_pos hfull, if_pos hfull]
  rw [if_neg hfull, if_neg hfull]
  have hversion := getElem?_eq_getD (show offset < regionData.length by omega)
  simp only [versionOffset, Nat.add_zero, hversion]
  generalize regionData.getD offset 0 = v at hversion
  have hother : v ≠ version := by
    rintro rfl
    exact hwalks ⟨by omega, hversion⟩
  by_cases hfree : v = 0xFF
  · rw [if_neg (by simp [hfree]), differsAt_eq]
    · rw [if_neg (by simp [hfree])]
      simp only [length_replicate]
      split
      · next hdiffers => cases hdiffers
      · next hdiffers => rw [if_pos (of_decide_eq_true (Except.ok.inj hdiffers))]
      · next hdiffers => rw [if_neg (of_decide_eq_false (Except.ok.inj hdiffers))]
    · rw [hashOffset, length_replicate]
      omega
  · rw [if_pos hfree, if_pos hother, if_pos (by simpa using hfree)]

theorem appendScan_cases (hfuel : 0 < fuel) (henough : S < fuel + offset) :
    (Stalls (AppendWalks S packageLength regionData) (entryLength regionData) offset ∧
      appendScan S packageLength regionData fuel offset = .diverges) ∨ ∃ o, ReflTransGen
        (Steps (AppendWalks S packageLength regionData) (entryLength regionData)) offset o ∧
      ¬ AppendWalks S packageLength regionData o ∧
      ¬ Stalls (AppendWalks S packageLength regionData) (entryLength regionData) offset ∧
      appendScan S packageLength regionData fuel offset =
        appendStop S packageLength regionData o := by
  induction fuel generalizing offset with
  | zero => omega
  | succ fuel ih =>
    by_cases hwalks : AppendWalks S packageLength regionData offset
    case neg =>
      exact .inr ⟨offset, .refl, hwalks, not_stalls hwalks, appendScan_stops hlen hheader hwalks⟩
    case pos =>
      by_cases hzero : entryLength regionData offset = 0
      case pos =>
        refine .inl ⟨stalls_of_zero hwalks hzero, ?_⟩
        -- an entry of length 0 leads back to itself
        have hagain : ∀ n, appendScan S packageLength regionData n offset = .diverges := by
          intro n
          induction n with
          | zero => rw [appendScan]
          | succ n ih =>
            rw [appendScan_walks hlen hheader hwalks, hzero, Nat.add_zero, ih]
        exact hagain _
      case neg =>
        rw [appendScan_walks hlen hheader hwalks, stalls_iff_next hwalks hzero]
        have hroom := hwalks.1
        have henough' : S < fuel + (offset + entryLength regionData offset) := by omega
        rcases ih (by omega) henough' with hstalls | ⟨o, hreach, hrest⟩
        · exact .inl hstalls
        · exact .inr ⟨o, .head ⟨hwalks, rfl⟩ hreach, hrest⟩

end

theorem collectScan_walks {entryFound : Bool} (hlen : regionData.length = S)
    (hwalks : CollectWalks S regionData offset) :
    collectScan S regionData (fuel + 1) offset entryFound =
      collectScan S regionData fuel (offset + entryLength regionData offset) true := by
  obtain ⟨hroom, hversion, hdead⟩ := hwalks
  have h0 : offset + lenOffset < regionData.length := by
    rw [lenOffset]
    omega
  have h1 : offset + lenOffset + 1 < regionData.length := by
    rw [lenOffset]
    omega
  rw [collectScan, if_neg (by omega)]
  simp only [versionOffset, Nat.add_zero, hversion, getElem?_eq_getD h0, getElem?_eq_getD h1]
  rw [if_pos (by decide), if_neg (by simp), if_pos hdead, entryLength]

theorem collectScan_stops (entryFound : Bool) (hlen : regionData.length = S)
    (hwalks : ¬ CollectWalks S regionData offset) :
    collectScan S regionData (fuel + 1) offset entryFound =
      collectStop S regionData offset entryFound := by
  rw [collectScan, collectStop]
  by_cases hend : S ≤ offset
  · rw [if_pos hend, if_pos hend]
  have hversion := getElem?_eq_getD (show offset < regionData.length by omega)
  simp only [versionOffset, Nat.add_zero, hversion]
  generalize regionData.getD offset 0 = v at hversion
  simp only [Option.some.injEq, ne_eq]
  by_cases hfree : v = 0xFF
  · rw [if_neg (not_not.mpr hfree), if_pos hfree]
  rw [if_pos hfree, if_neg hfree]
  by_cases hother : ¬ v = version
  · rw [if_pos hother, if_pos hother]
  obtain rfl := not_not.mp hother
  by_cases hshort : S ≤ offset + 2
  · rw [if_pos hshort, getElem?_eq_none (i := offset + lenOffset + 1) (by rw [lenOffset]; omega)]
    cases regionData[offset + lenOffset]? <;> rfl
  have h0 := getElem?_eq_getD (show offset + lenOffset < regionData.length by rw [lenOffset]; omega)
  have h1 := getElem?_eq_getD
    (show offset + lenOffset + 1 < regionData.length by rw [lenOffset]; omega)
  rw [if_neg hshort, h0, h1]
  simp only
  rw [if_neg fun hdead => hwalks ⟨by omega, hversion, hdead⟩]

theorem collectScan_cases (entryFound : Bool) (hlen : regionData.length = S)
    (hfuel : 0 < fuel) (henough : S < fuel + offset) :
    (Stalls (CollectWalks S regionData) (entryLength regionData) offset ∧
      collectScan S regionData fuel offset entryFound = .diverges) ∨ ∃ o found, ReflTransGen
        (Steps (CollectWalks S regionData) (entryLength regionData)) offset o ∧
      ¬ CollectWalks S regionData o ∧
      ¬ Stalls (CollectWalks S regionData) (entryLength regionData) offset ∧
      collectScan S regionData fuel offset entryFound = collectStop S regionData o found := by
  induction fuel generalizing offset entryFound with
  | zero => omega
  | succ fuel ih =>
    by_cases hwalks : CollectWalks S regionData offset
    case neg =>
      exact .inr ⟨offset, entryFound, .refl, hwalks, not_stalls hwalks,
        collectScan_stops entryFound hlen hwalks⟩
    case pos =>
      by_cases hzero : entryLength regionData offset = 0
      case pos =>
        refine .inl ⟨stalls_of_zero hwalks hzero, ?_⟩
        have hagain : ∀ n found, collectScan S regionData n offset found = .diverges := by
          intro n
          induction n with
          | zero => exact fun _ => rfl
          | succ n ih =>
            intro found
            rw [collectScan_walks hlen hwalks, hzero, Nat.add_zero, ih]
        exact hagain _ _
      case neg =>
        rw [collectScan_walks hlen hwalks, stalls_iff_next hwalks hzero]
        have hroom := hwalks.1
        have henough' : S < fuel + (offset + entryLength regionData offset) := by omega
        rcases ih true (by omega) henough' with hstalls | ⟨o, found, hreach, hrest⟩
        · exact .inl hstalls
        · exact .inr ⟨o, found, .head ⟨hwalks, rfl⟩ hreach, hrest⟩

end Scans

/-! ## Along the order of the regions -/

/-- `ok` holds of every region that is come to if one goes on from the regions
that `passes` holds of. -/
def AlongOrder (passes ok : ℕ → Prop) : List ℕ → Prop
  | [] => True
  | r :: regions => ok r ∧ (passes r → AlongOrder passes ok regions)

section Search

variable {S : ℕ} {t : TicKV S} {hash : BitVec 64}

/-- What the search along some regions finds: a region, an offset and a length. -/
def firstEntry (t : TicKV S) (hash : BitVec 64) : List ℕ → Option (ℕ × ℕ × ℕ)
  | [] => none
  | r :: regions =>
    match findKeyOffset S hash (t.readRegion r) with
    | .ok (offset, length) => some (r, offset, length)
    | .error (true, _) => t.firstEntry hash regions
    | .error (false, _) => none

theorem locateLoop_cases (hbuf : t.readBuffer) {region : ℕ}
    (hregion : region < t.numRegion) {fuel : ℕ} {offset : ℤ}
    (hrange : InRange t.numRegion region offset) (hfuel : 2 * t.numRegion ≤ rank offset + fuel) :
    (∃ e, t.firstEntry hash (probe t.numRegion region fuel offset) = none ∧
      t.locateLoop hash region fuel offset = .ok (.error e)) ∨
    ∃ found, t.firstEntry hash (probe t.numRegion region fuel offset) = some found ∧
      t.locateLoop hash region fuel offset = .ok (.ok found) := by
  apply probe_induction hregion _ hrange hfuel
  intro fuel offset _ hback ih
  rw [locateLoop, probe, firstEntry]
  simp only [hbuf, hback, incrementRegionOffset]
  rcases findKeyOffset S hash (t.readRegion (region + offset).toNat) with
    ⟨_ | _, e⟩ | ⟨o, n⟩
  · exact .inl ⟨e, rfl, rfl⟩
  · cases hnext : incrementLoop t.numRegion region (2 * t.numRegion + 2) offset false false with
    | none => exact .inl ⟨e, rfl, rfl⟩
    | some next => exact ih next hnext
  · exact .inr ⟨_, rfl, rfl⟩

def Searchable (t : TicKV S) (hash : BitVec 64) : Prop :=
  ValidHash hash ∧ 0 < t.numRegion

theorem getRegion_cases (t : TicKV S) (hash : BitVec 64) :
    (¬ t.Searchable hash ∧ t.getRegion hash = .error .panic) ∨ (t.Searchable hash ∧
        t.getRegion hash = .ok (hash.toNat % 0x10000 % t.numRegion)) := by
  unfold getRegion Searchable ValidHash
  split_ifs with hhash hn
  · exact .inl ⟨fun h => h.1 hhash, rfl⟩
  · exact .inl ⟨fun h => by omega, rfl⟩
  · exact .inr ⟨⟨hhash, by omega⟩, rfl⟩

theorem locate_cases (hbuf : t.readBuffer) (hash : BitVec 64) :
    (¬ t.Searchable hash ∧ t.locate hash = .error .panic) ∨ (t.Searchable hash ∧
      ((∃ e, t.firstEntry hash (t.order hash) = none ∧
        t.locate hash = .ok (.error e)) ∨
      ∃ found, t.firstEntry hash (t.order hash) = some found ∧
        t.locate hash = .ok (.ok found))) := by
  rcases t.getRegion_cases hash with ⟨hnot, hregion⟩ | ⟨hsearch, hregion⟩
  · exact .inl ⟨hnot, by rw [locate, hregion]⟩
  have hlt := Nat.mod_lt (hash.toNat % 0x10000) hsearch.2
  refine .inr ⟨hsearch, ?_⟩
  rw [locate, hregion]
  exact locateLoop_cases hbuf hlt ⟨by omega, by omega⟩ (by omega)

theorem firstEntry_mem {regions : List ℕ} {r offset length : ℕ}
    (h : t.firstEntry hash regions = some (r, offset, length)) : r ∈ regions ∧
      findKeyOffset S hash (t.readRegion r) = .ok (offset, length) := by
  induction regions with
  | nil => cases h
  | cons r' regions ih =>
    rw [firstEntry] at h
    split at h
    next hfound =>
      cases h
      exact ⟨mem_cons_self, hfound⟩
    next =>
      obtain ⟨hmem, hfound⟩ := ih h
      exact ⟨mem_cons_of_mem _ hmem, hfound⟩
    next => cases h

theorem findLoop_lt {regionData : List Byte} {fuel start offset length : ℕ} {empty : Bool}
    (h : findLoop S hash regionData fuel start empty = .ok (offset, length)) :
    offset + headerLength < S ∧ length ≠ 0 := by
  induction fuel generalizing start empty with
  | zero => cases h
  | succ fuel ih =>
    rw [findLoop] at h
    split at h
    · cases h
    next hroom =>
    obtain ⟨v, -, h⟩ := of_bind_ok h
    split at h
    · cases h
    split at h
    · cases h
    obtain ⟨_, -, h⟩ := of_bind_ok h
    obtain ⟨_, -, h⟩ := of_bind_ok h
    dsimp only at h
    split at h
    · cases h
    next hlen =>
    split at h
    · exact ih h
    obtain ⟨_, -, h⟩ := of_bind_ok h
    split at h
    · exact ih h
    · cases h
      exact ⟨Nat.not_le.mp hroom, hlen⟩

end Search

/-! ## Appending -/

section Append

variable {S : ℕ} {t : TicKV S} {hash : BitVec 64} {value : List Byte}

/-- `append_key` goes on behind a region if it has neither the key nor a place
for the object. -/
def AppendPasses (t : TicKV S) (hash : BitVec 64) (packageLength r : ℕ) : Prop :=
  (∃ e, findKeyOffset S hash (t.readRegion r) = .error e) ∧ ∃ o, Relation.ReflTransGen
        (Steps (AppendWalks S packageLength (t.readRegion r)) (entryLength (t.readRegion r))) 0 o ∧
      S ≤ o + packageLength

/-- `append_key` gets through a region, unless it has found the key in it. -/
def AppendEnds (t : TicKV S) (hash : BitVec 64) (packageLength r : ℕ) : Prop :=
  (∃ e, findKeyOffset S hash (t.readRegion r) = .error e) →
    ¬ Stalls (AppendWalks S packageLength (t.readRegion r)) (entryLength (t.readRegion r)) 0

theorem stop_unique {walks : ℕ → Prop} {length : ℕ → ℕ} {a o o' : ℕ}
    (hreach : ReflTransGen (Steps walks length) a o) (hstop : ¬ walks o)
    (hreach' : ReflTransGen (Steps walks length) a o') (hstop' : ¬ walks o') : o = o' := by
  induction hreach using head_induction_on with
  | refl =>
    rcases cases_head hreach' with heq | ⟨b, hstep, -⟩
    · exact heq
    · exact absurd hstep.1 hstop
  | head hstep _ ih =>
    rcases cases_head hreach' with rfl | ⟨b, hstep', hrest⟩
    · exact absurd hstep.1 hstop'
    obtain ⟨-, rfl⟩ := hstep
    obtain ⟨-, rfl⟩ := hstep'
    exact ih hrest

theorem appendLoop_returns_iff (hbuf : t.readBuffer) {region : ℕ}
    (hregion : region < t.numRegion) {fuel : ℕ} {offset : ℤ}
    (hrange : InRange t.numRegion region offset) (hfuel : 2 * t.numRegion ≤ rank offset + fuel) :
    (∃ result, t.appendLoop hash value region fuel offset = .ok result) ↔
      AlongOrder (t.AppendPasses hash (headerLength + value.length))
        (t.AppendEnds hash (headerLength + value.length))
        (probe t.numRegion region fuel offset) := by
  apply probe_induction hregion _ hrange hfuel
  intro fuel offset _ hback ih
  rw [appendLoop, probe, AlongOrder]
  simp only [hbuf, Bool.not_true, Bool.false_eq_true, if_false, hback, incrementRegionOffset]
  generalize hr : (region + offset).toNat = r
  cases hfind : findKeyOffset S hash (t.readRegion r) with
  | ok found =>
    -- the key is there already
    have hno : ¬ ∃ e, findKeyOffset S hash (t.readRegion r) = .error e := by
      rw [hfind]
      rintro ⟨e, he⟩
      cases he
    exact iff_of_true ⟨_, rfl⟩ ⟨fun h => absurd h hno, fun h => absurd h.1 hno⟩
  | error e =>
    have hlen := t.length_readRegion r
    have hheader : headerLength ≤ headerLength + value.length := Nat.le_add_right ..
    have hpasses : ∀ {o : ℕ}, ReflTransGen
        (Steps (AppendWalks S (headerLength + value.length) (t.readRegion r))
          (entryLength (t.readRegion r))) 0 o →
        ¬ AppendWalks S (headerLength + value.length) (t.readRegion r) o →
        (t.AppendPasses hash (headerLength + value.length) r ↔
          S ≤ o + (headerLength + value.length)) := by
      intro o hreach hstop
      constructor
      · rintro ⟨-, _, hreach', hfull⟩
        rwa [stop_unique hreach hstop hreach' fun h => by
          have := h.1
          omega]
      · exact fun hfull => ⟨⟨e, hfind⟩, o, hreach, hfull⟩
    rcases appendScan_cases hlen hheader (Nat.succ_pos S)
      (by omega : S < S + 1 + 0) with ⟨hstalls, hscan⟩ | ⟨o, hreach, hstop, hends, hscan⟩
    · rw [hscan]
      refine iff_of_false ?_ fun h => h.1 ⟨e, hfind⟩ hstalls
      rintro ⟨result, hres⟩
      cases hres
    rw [hscan, appendStop]
    have hok : t.AppendEnds hash (headerLength + value.length) r := fun _ => hends
    by_cases hfull : S ≤ o + (headerLength + value.length)
    · rw [if_pos hfull]
      simp only [hok, true_and, (hpasses hreach hstop).mpr hfull, true_imp_iff]
      cases hnext : incrementLoop t.numRegion region (2 * t.numRegion + 2) offset false false with
      | none => exact iff_of_true ⟨_, rfl⟩ trivial
      | some next => exact ih next hnext
    have hnot := (hpasses hreach hstop).not.mpr hfull
    refine iff_of_true ?_ ⟨hok, fun h => absurd h hnot⟩
    split_ifs
    · exact ⟨_, rfl⟩
    · exact ⟨_, rfl⟩
    simp only
    split_ifs
    all_goals exact ⟨_, rfl⟩

end Append

/-! ## Operations -/

inductive Operation where
  | initialise (mainKey : BitVec 64)
  | append (hash : BitVec 64) (value : List Byte)
  | get (hash : BitVec 64) (buf : List Byte)
  | invalidate (hash : BitVec 64)
  | zeroise (hash : BitVec 64)
  | garbageCollect

section Operations

variable {S : ℕ}

def Returns (t : TicKV S) : Operation → Prop
  | .initialise mainKey => ∃ result, t.initialise mainKey = .ok result
  | .append hash value => ∃ result, t.appendKey hash value = .ok result
  | .get hash buf => ∃ result, t.getKey hash buf = .ok result
  | .invalidate hash => ∃ result, t.invalidateKey hash = .ok result
  | .zeroise hash => ∃ result, t.zeroiseKey hash = .ok result
  | .garbageCollect => ∃ result, t.garbageCollect = .ok result

def Readable (S : ℕ) (regionData : List Byte) (offset : ℕ) : Prop :=
  S ≤ offset ∨ regionData[offset]? = some 0xFF ∨
    (regionData[offset]? = some version ∧ offset + 2 < S)

/-- The garbage collector goes on behind a region if it can read what its walk
stops at. -/
def CollectPasses (t : TicKV S) (r : ℕ) : Prop :=
  ∃ o, Relation.ReflTransGen
      (Steps (CollectWalks S (t.readRegion r)) (entryLength (t.readRegion r))) 0 o ∧
    ¬ CollectWalks S (t.readRegion r) o ∧ Readable S (t.readRegion r) o

def Sound (t : TicKV S) : Operation → Prop
  | .initialise mainKey => t.Searchable mainKey ∧ ∀ r offset length,
        t.firstEntry mainKey (t.order mainKey) = some (r, offset, length) →
        headerLength + checkSumLen ≤ length ∧
          (length = headerLength + checkSumLen → offset + length ≤ S)
  | .append hash value => t.Searchable hash ∧ headerLength + value.length + checkSumLen ≠ 0xFFF ∧
      (headerLength + value.length + checkSumLen < 0xFFF →
        AlongOrder (t.AppendPasses hash (headerLength + value.length))
          (t.AppendEnds hash (headerLength + value.length)) (t.order hash))
  | .get hash _ => t.Searchable hash ∧ ∀ r offset length,
        t.firstEntry hash (t.order hash) = some (r, offset, length) →
        headerLength + checkSumLen ≤ length
  | .invalidate hash | .zeroise hash => t.Searchable hash
  | .garbageCollect => S ≠ 0 ∧ AlongOrder t.CollectPasses
        (fun r => ¬ Stalls (CollectWalks S (t.readRegion r)) (entryLength (t.readRegion r)) 0)
        (List.range t.numRegion)

variable {t : TicKV S} {hash : BitVec 64}

theorem appendKey_returns_iff (hbuf : t.readBuffer) (value : List Byte) :
    t.Returns (.append hash value) ↔ t.Sound (.append hash value) := by
  simp only [Returns, Sound]
  rcases t.getRegion_cases hash with ⟨hnot, hregion⟩ | ⟨hsearch, hregion⟩
  · refine iff_of_false ?_ fun h => hnot h.1
    rintro ⟨result, hres⟩
    rw [appendKey, hregion] at hres
    cases hres
  unfold appendKey
  rw [hregion]
  simp only [hsearch, true_and]
  by_cases hlarge : headerLength + value.length + checkSumLen > 0xFFF
  · rw [if_pos hlarge]
    exact iff_of_true ⟨_, rfl⟩ ⟨by omega, fun h => by omega⟩
  by_cases hmax : headerLength + value.length + checkSumLen = 0xFFF
  · rw [if_neg hlarge, if_pos hmax]
    refine iff_of_false ?_ fun h => h.1 hmax
    rintro ⟨result, hres⟩
    cases hres
  have hlt := Nat.mod_lt (hash.toNat % 0x10000) hsearch.2
  rw [if_neg hlarge, if_neg hmax, appendLoop_returns_iff hbuf hlt ⟨by omega, by omega⟩ (by omega)]
  exact ⟨fun h => ⟨hmax, fun _ => h⟩, fun h => h.2 (by omega)⟩

variable {regionData : List Byte}

theorem getValue_returns_iff {buf : List Byte} {offset length : ℕ}
    (hlen : regionData.length = S) (hroom : offset + headerLength < S) :
    (∃ result, t.getValue buf regionData offset length = .ok result) ↔
      headerLength + checkSumLen ≤ length := by
  rw [getValue, if_neg (by omega)]
  by_cases hshort : length < headerLength + checkSumLen
  · rw [if_pos hshort]
    refine iff_of_false ?_ (by omega)
    rintro ⟨result, hres⟩
    cases hres
  rw [if_neg hshort]
  refine iff_of_true ?_ (by omega)
  dsimp only
  split_ifs
  all_goals exact ⟨_, rfl⟩

theorem getKey_returns_iff (hbuf : t.readBuffer) (buf : List Byte) :
    t.Returns (.get hash buf) ↔ t.Sound (.get hash buf) := by
  simp only [Returns, Sound, getKey]
  rcases locate_cases hbuf hash with
    ⟨hnot, hlocate⟩ | ⟨hsearch, ⟨e, hnone, hlocate⟩ | ⟨⟨r, o, n⟩, hsome, hlocate⟩⟩
  · rw [hlocate]
    refine iff_of_false ?_ fun h => hnot h.1
    rintro ⟨_, hres⟩
    cases hres
  · rw [hlocate, hnone]
    exact iff_of_true ⟨_, rfl⟩ ⟨hsearch, fun _ _ _ h => nomatch h⟩
  have hroom := (findLoop_lt (firstEntry_mem hsome).2).1
  rw [hlocate, hsome]
  rw [getValue_returns_iff (t.length_readRegion r) hroom]
  constructor
  · intro hlong
    refine ⟨hsearch, fun r' o' n' heq => ?_⟩
    cases heq
    exact hlong
  · exact fun h => h.2 r o n rfl

theorem invalidateKey_returns_iff (hbuf : t.readBuffer) :
    t.Returns (.invalidate hash) ↔ t.Sound (.invalidate hash) := by
  simp only [Returns, invalidateKey]
  rcases locate_cases hbuf hash with
    ⟨hnot, hlocate⟩ | ⟨hsearch, ⟨e, -, hlocate⟩ | ⟨⟨r, o, n⟩, -, hlocate⟩⟩
  · rw [hlocate]
    refine iff_of_false ?_ hnot
    rintro ⟨_, hres⟩
    cases hres
  · rw [hlocate]
    exact iff_of_true ⟨_, rfl⟩ hsearch
  rw [hlocate]
  refine iff_of_true ?_ hsearch
  simp only
  split
  all_goals exact ⟨_, rfl⟩

theorem zeroiseKey_returns_iff (hbuf : t.readBuffer) :
    t.Returns (.zeroise hash) ↔ t.Sound (.zeroise hash) := by
  simp only [Returns, zeroiseKey]
  rcases locate_cases hbuf hash with
    ⟨hnot, hlocate⟩ | ⟨hsearch, ⟨e, -, hlocate⟩ | ⟨⟨r, o, n⟩, -, hlocate⟩⟩
  · rw [hlocate]
    refine iff_of_false ?_ hnot
    rintro ⟨_, hres⟩
    cases hres
  · rw [hlocate]
    exact iff_of_true ⟨_, rfl⟩ hsearch
  rw [hlocate]
  refine iff_of_true ?_ hsearch
  simp only
  split
  · exact ⟨_, rfl⟩
  · split_ifs
    all_goals exact ⟨_, rfl⟩

theorem collectStop_readable (entryFound : Bool) (h : Readable S regionData o) :
    collectStop S regionData o entryFound = .erase ∨
      collectStop S regionData o entryFound = .keep := by
  unfold collectStop
  rcases h with hend | hfree | ⟨hversion, hroom⟩
  · exact .inl (if_pos hend)
  · by_cases hend : S ≤ o
    · exact .inl (if_pos hend)
    rw [if_neg hend, if_pos hfree]
    cases entryFound
    · exact .inr rfl
    · exact .inl rfl
  have hne : ¬ regionData[o]? = some 0xFF := by
    rw [hversion]
    decide
  rw [if_neg (by omega), if_neg hne, if_neg (not_not.mpr hversion), if_neg (by omega)]
  exact .inr rfl

theorem collectStop_not_readable (entryFound : Bool) (h : ¬ Readable S regionData o) :
    ∃ e keepsBuffer, collectStop S regionData o entryFound = .failed e keepsBuffer := by
  obtain ⟨hend, hfree, hrest⟩ : ¬ S ≤ o ∧ ¬ regionData[o]? = some 0xFF ∧
      ¬ (regionData[o]? = some version ∧ o + 2 < S) := by
    simpa [Readable] using h
  rw [collectStop, if_neg hend, if_neg hfree]
  by_cases hversion : regionData[o]? = some version
  · rw [if_neg (not_not.mpr hversion), if_pos]
    · exact ⟨_, _, rfl⟩
    · by_contra hroom
      exact hrest ⟨hversion, by omega⟩
  · rw [if_pos hversion]
    exact ⟨_, _, rfl⟩

theorem alongOrder_congr {regions : List ℕ} {passes ok passes' ok' : ℕ → Prop}
    (h : ∀ r ∈ regions, (passes r ↔ passes' r) ∧ (ok r ↔ ok' r)) :
    AlongOrder passes ok regions ↔ AlongOrder passes' ok' regions := by
  induction regions with
  | nil => exact Iff.rfl
  | cons r regions ih =>
    obtain ⟨hpasses, hok⟩ := h r (by simp)
    rw [AlongOrder, AlongOrder, hpasses, hok, ih fun r' hr' => h r' (mem_cons_of_mem _ hr')]

theorem garbageCollectRegion_cases (hbuf : t.readBuffer) (r : ℕ) :
    (Stalls (CollectWalks S (t.readRegion r)) (entryLength (t.readRegion r)) 0 ∧
      t.garbageCollectRegion r = .error .diverges) ∨
    (¬ Stalls (CollectWalks S (t.readRegion r)) (entryLength (t.readRegion r)) 0 ∧
      ((t.CollectPasses r ∧ ∃ freed t', t.garbageCollectRegion r = .ok (.ok freed, t') ∧
          t'.readBuffer ∧ ∀ r' ≠ r, t'.readRegion r' = t.readRegion r') ∨
        (¬ t.CollectPasses r ∧ ∃ e t', t.garbageCollectRegion r = .ok (.error e, t')))) := by
  unfold garbageCollectRegion
  simp only [hbuf, Bool.not_true, Bool.false_eq_true, if_false]
  rcases collectScan_cases false (t.length_readRegion r) (Nat.succ_pos S) (by omega : S < S + 1 + 0)
    with ⟨hstalls, hscan⟩ | ⟨o, found, hreach, hstop, hends, hscan⟩
  · exact .inl ⟨hstalls, by rw [hscan]⟩
  refine .inr ⟨hends, ?_⟩
  rw [hscan]
  by_cases hread : Readable S (t.readRegion r) o
  · refine .inl ⟨⟨o, hreach, hstop, hread⟩, ?_⟩
    rcases collectStop_readable found hread with herase | hkeep
    · rw [herase]
      refine ⟨S, t.eraseRegion r, rfl, hbuf, fun r' hne => ?_⟩
      rw [readRegion_eraseRegion, if_neg hne]
    · rw [hkeep]
      exact ⟨0, t, rfl, hbuf, fun _ _ => rfl⟩
  refine .inr ⟨?_, ?_⟩
  · rintro ⟨_, hreach', hstop', hread'⟩
    exact hread (stop_unique hreach hstop hreach' hstop' ▸ hread')
  · obtain ⟨e, _, hfailed⟩ := collectStop_not_readable found hread
    rw [hfailed]
    exact ⟨e, _, rfl⟩

theorem collectLoop_returns_iff (hbuf : t.readBuffer) {regions : List ℕ}
    (hnodup : regions.Nodup) (freed : ℕ) : (∃ result, t.collectLoop regions freed = .ok result) ↔
      AlongOrder t.CollectPasses (fun r => ¬ Stalls (CollectWalks S (t.readRegion r))
          (entryLength (t.readRegion r)) 0) regions := by
  induction regions generalizing t freed with
  | nil => exact iff_of_true ⟨_, rfl⟩ trivial
  | cons r regions ih =>
    obtain ⟨hnot, hrest⟩ := nodup_cons.mp hnodup
    rw [AlongOrder]
    simp only [collectLoop]
    rcases garbageCollectRegion_cases hbuf r with ⟨hstalls, hcollect⟩ |
      ⟨hends, ⟨hpasses, _, t', hcollect, hbuffer', hsame⟩ | ⟨hfails, e, t', hcollect⟩⟩
    · rw [hcollect]
      refine iff_of_false ?_ fun h => h.1 hstalls
      rintro ⟨result, hres⟩
      cases hres
    · rw [hcollect]
      simp only [hends, not_false_eq_true, hpasses, true_imp_iff, true_and]
      rw [ih hbuffer' hrest]
      refine alongOrder_congr fun r' hr' => ?_
      have hread : t'.readRegion r' = t.readRegion r' := hsame r' (ne_of_mem_of_not_mem hr' hnot)
      unfold CollectPasses
      rw [hread]
      exact ⟨Iff.rfl, Iff.rfl⟩
    · rw [hcollect]
      exact iff_of_true ⟨_, rfl⟩ ⟨hends, fun h => absurd h hfails⟩

theorem garbageCollect_returns_iff (hbuf : t.readBuffer) :
    t.Returns .garbageCollect ↔ t.Sound .garbageCollect := by
  simp only [Returns, garbageCollect]
  by_cases hS : S = 0
  · rw [if_pos hS]
    refine iff_of_false ?_ fun h => h.1 hS
    rintro ⟨_, hres⟩
    cases hres
  · rw [if_neg hS, collectLoop_returns_iff hbuf nodup_range]
    exact ⟨fun h => ⟨hS, h⟩, fun h => h.2⟩

theorem eraseAll_appendKey_iff (hsearch : t.Searchable hash) :
    (∃ result, t.eraseAll.appendKey hash [] = .ok result) ↔ t.readBuffer := by
  obtain ⟨hsize, hbuf, -⟩ := eraseRegions_fields t (range t.numRegion)
  have hn : t.eraseAll.numRegion = t.numRegion := by
    unfold numRegion eraseAll
    rw [hsize]
  constructor
  · rintro ⟨⟨result, _⟩, happend⟩
    rw [← hbuf]
    exact (appendKey_ok (by decide) happend).2
  · intro hpresent
    rw [appendKey_eq (eraseAll_represents t) (hbuf.trans hpresent)
      (by rw [hn]; exact hsearch.2) hsearch.1 (by decide)]
    unfold appendResult
    split
    · exact ⟨_, rfl⟩
    · exact ⟨_, rfl⟩
    · split_ifs
      all_goals exact ⟨_, rfl⟩

theorem getValue_nil {offset length : ℕ} (hregion : regionData.length = S)
    (hroom : offset + headerLength < S) (hlen : headerLength + checkSumLen ≤ length) :
    ((length = headerLength + checkSumLen → offset + length ≤ S) ∧
      ∃ result, t.getValue [] regionData offset length = .ok (result, t)) ∨
    (length = headerLength + checkSumLen ∧ S < offset + length ∧
      ∃ e buf, t.getValue [] regionData offset length = .ok ((.error e, buf), t.loseBuffer)) := by
  rw [getValue, if_neg (by omega), if_neg (by omega)]
  simp only [length_nil]
  by_cases hempty : length = headerLength + checkSumLen
  · rw [if_neg (by omega), if_neg (by omega), hregion]
    by_cases hcross : S < offset + length
    · rw [if_pos hcross]
      exact .inr ⟨hempty, hcross, _, _, rfl⟩
    refine .inl ⟨fun _ => by omega, ?_⟩
    split_ifs
    all_goals exact ⟨_, rfl⟩
  · rw [if_pos (by omega)]
    exact .inl ⟨fun h => absurd h hempty, _, rfl⟩

theorem initialise_returns_iff (hbuf : t.readBuffer) (mainKey : BitVec 64) :
    t.Returns (.initialise mainKey) ↔ t.Sound (.initialise mainKey) := by
  simp only [Returns, Sound, initialise, getKey]
  rcases locate_cases hbuf mainKey with
    ⟨hnot, hlocate⟩ | ⟨hsearch, ⟨e, hnone, hlocate⟩ | ⟨⟨r, o, n⟩, hsome, hlocate⟩⟩
  · rw [hlocate]
    refine iff_of_false ?_ fun h => hnot h.1
    rintro ⟨result, hres⟩
    cases hres
  · rw [hlocate, hnone]
    exact iff_of_true ((eraseAll_appendKey_iff hsearch).mpr hbuf)
      ⟨hsearch, fun _ _ _ h => nomatch h⟩
  have hroom := (findLoop_lt (firstEntry_mem hsome).2).1
  rw [hlocate, hsome]
  simp only [hsearch, true_and]
  by_cases hlong : headerLength + checkSumLen ≤ n
  case neg =>
    have hpanic : ¬ ∃ result, t.getValue [] (t.readRegion r) o n = .ok result :=
      (getValue_returns_iff (t.length_readRegion r) hroom).not.mpr hlong
    refine iff_of_false ?_ fun h => hlong (h r o n rfl).1
    rintro ⟨result, hres⟩
    split at hres
    · cases hres
    next hget => exact hpanic ⟨_, hget⟩
    next hget => exact hpanic ⟨_, hget⟩
  case pos =>
    rcases getValue_nil (t.length_readRegion r) hroom hlong with
      ⟨hinside, ⟨⟨result, buf⟩, hget⟩⟩ | ⟨hempty, hcross, e, buf, hget⟩
    · rw [hget]
      refine iff_of_true ?_ ?_
      · cases result with
        | ok value => exact ⟨_, rfl⟩
        | error e => exact (eraseAll_appendKey_iff hsearch).mpr hbuf
      · intro r' o' n' heq
        cases heq
        exact ⟨hlong, hinside⟩
    rw [hget]
    have hlost := (eraseAll_appendKey_iff (t := t.loseBuffer) hsearch).not.mpr
      (by simp [loseBuffer])
    refine iff_of_false hlost fun h => ?_
    have hinside := (h r o n rfl).2 hempty
    omega

/-- On any flash, an operation of a store that has its read buffer returns if and
only if the flash and the arguments are sound for it. -/
theorem returns_iff_sound (t : TicKV S) (hbuffer : t.readBuffer = true)
    (operation : Operation) : t.Returns operation ↔ t.Sound operation := by
  cases operation with
  | initialise mainKey => exact initialise_returns_iff hbuffer mainKey
  | append hash value => exact appendKey_returns_iff hbuffer value
  | get hash buf => exact getKey_returns_iff hbuffer buf
  | invalidate hash => exact invalidateKey_returns_iff hbuffer
  | zeroise hash => exact zeroiseKey_returns_iff hbuffer
  | garbageCollect => exact garbageCollect_returns_iff hbuffer

def flashOf (bytes : List Byte) : TicKV 32 where
  flash := fun address => bytes.getD address 0xFF
  flashSize := 32
  readBuffer := true

theorem returns_iff_sound_object : (flashOf (objectBytes 5 [1])).Sound (.get 5 [0]) ∧
      (flashOf (objectBytes 5 [1])).Returns (.get 5 [0]) := by
  let t := flashOf (objectBytes 5 [1])
  have hfirst : t.firstEntry 5 (t.order 5) = some (0, 0, 16) := by decide +kernel
  have hsound : t.Sound (.get 5 [0]) := by
    refine ⟨⟨?_, by decide⟩, fun r offset length h => ?_⟩
    · unfold ValidHash
      decide
    · cases hfirst.symm.trans h
      decide
  exact ⟨hsound, (returns_iff_sound t rfl (.get 5 [0])).mpr hsound⟩

def aborts {α : Type} : Result S α → Option Abort
  | .error abort => some abort
  | .ok _ => none

/-- An entry of length 0, a deleted one and an entry that is shorter than a header
with a checksum; and an object of 0xFFF bytes. -/
theorem corrupt_flash_aborts : aborts ((flashOf [1, 0x80, 0]).appendKey 5 [7]) = some .diverges ∧
      aborts ((flashOf [1, 0x00, 0]).garbageCollect) = some .diverges ∧
      aborts ((flashOf [1, 0x80, 14, 0, 0, 0, 0, 0, 0, 0, 5]).getKey 5 []) = some .panic ∧
      aborts ((flashOf []).appendKey 5 (List.replicate 4080 0)) = some .panic := by
  unfold appendKey
  rw [length_replicate]
  decide +kernel

end Operations

end TockKernel.TicKV

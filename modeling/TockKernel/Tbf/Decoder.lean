import TockKernel.Tbf.Parse

/-!
# The header parser as a decoder

What `parse_tbf_header` returns for a header that was put together from entries,
and what it does with a header in which one bit is different.
-/

namespace TockKernel.Tbf

open TbfParseError TbfHeaderV2Base List
open Except (ok)
open Arithmetic

/-! ## Encoded headers -/

def le16 (w : BitVec 16) : List Byte := [w.extractLsb' 0 8, w.extractLsb' 8 8]

def le32 (w : BitVec 32) : List Byte :=
  [w.extractLsb' 0 8, w.extractLsb' 8 8, w.extractLsb' 16 8, w.extractLsb' 24 8]

inductive TlvContent where
  | main (main : TbfHeaderV2Main)
  | program (program : TbfHeaderV2Program)
  | writeableFlashRegions (regions : List Byte) (whole : regions.length % 8 = 0)
  | packageName (name : List Byte) (utf8 : isUtf8 name = true)
  | fixedAddresses (addresses : TbfHeaderV2FixedAddresses)
  | permissions (permissions : List Byte)
  | storagePermissions (permissions : List Byte)
  | kernelVersion (version : TbfHeaderV2KernelVersion)
  | shortId (shortId : BitVec 32)
  | other (tipe : BitVec 16) (bytes : List Byte)
      (ignored : tipe.toNat ∉ [1, 2, 3, 5, 6, 7, 8, 9, 10])

namespace TlvContent

/-- The number of the type in the Tock Binary Format. -/
def tipe : TlvContent → BitVec 16
  | .main _ => 1
  | .writeableFlashRegions _ _ => 2
  | .packageName _ _ => 3
  | .fixedAddresses _ => 5
  | .permissions _ => 6
  | .storagePermissions _ => 7
  | .kernelVersion _ => 8
  | .program _ => 9
  | .shortId _ => 10
  | .other tipe _ _ => tipe

/-- The fields in the order in which they stand in the entry. -/
def bytes : TlvContent → List Byte
  | .main m =>
    le32 m.initFnOffset ++ le32 m.protectedTrailerSize ++ le32 m.minimumRamSize
  | .program p =>
    le32 p.initFnOffset ++ le32 p.protectedTrailerSize ++ le32 p.minimumRamSize ++
      le32 p.binaryEndOffset ++ le32 p.version
  | .fixedAddresses addresses =>
    le32 addresses.startProcessRam ++ le32 addresses.startProcessFlash
  | .kernelVersion version => le16 version.major ++ le16 version.minor
  | .shortId id => le32 id
  | .writeableFlashRegions bytes _ | .packageName bytes _ | .permissions bytes
  | .storagePermissions bytes | .other _ bytes _ => bytes

end TlvContent

/-- An entry of the header, with what fills its last word. -/
structure TlvEntry where
  content : TlvContent
  padding : List Byte
  short : content.bytes.length < 2 ^ 16
  padded : content.bytes.length + padding.length = (content.bytes.length + 3) / 4 * 4

namespace TlvEntry

def length (e : TlvEntry) : BitVec 16 := BitVec.ofNat 16 e.content.bytes.length

def bytes (e : TlvEntry) : List Byte :=
  le16 e.content.tipe ++ le16 e.length ++ e.content.bytes ++ e.padding

end TlvEntry

section

variable {β : Type} (select : TlvContent → Option β)

def firstOf (entries : List TlvEntry) : Option β :=
  entries.findSome? fun e => select e.content

def lastOf (entries : List TlvEntry) : Option β :=
  firstOf select entries.reverse

@[simp]
theorem firstOf_concat (entries : List TlvEntry) (e : TlvEntry) :
    firstOf select (entries ++ [e]) = (firstOf select entries).or (select e.content) := by
  simp [firstOf]

@[simp]
theorem lastOf_concat (entries : List TlvEntry) (e : TlvEntry) :
    lastOf select (entries ++ [e]) = (select e.content).or (lastOf select entries) := by
  cases hselect : select e.content <;> simp [lastOf, firstOf, hselect]

end

variable (entries : List TlvEntry)

def fieldsOf : TlvFields where
  main := firstOf (fun | .main main => some main | _ => none) entries
  program := firstOf (fun | .program program => some program | _ => none) entries
  packageName := (lastOf (fun | .packageName name _ => some name | _ => none) entries).getD []
  writeableRegions :=
    lastOf (fun | .writeableFlashRegions regions _ => some regions | _ => none) entries
  fixedAddresses := lastOf (fun
    | .fixedAddresses addresses => some (TlvContent.fixedAddresses addresses).bytes
    | _ => none) entries
  permissions := lastOf (fun | .permissions bytes => some bytes | _ => none) entries
  storagePermissions := lastOf (fun | .storagePermissions bytes => some bytes | _ => none) entries
  kernelVersion := lastOf (fun | .kernelVersion version => some version | _ => none) entries
  shortId := lastOf (fun
    | .shortId shortId => some ⟨if shortId = 0 then none else some shortId⟩
    | _ => none) entries

/-- Version and size of the header, size of the application and flags, with the
checksum that belongs to them and to what follows. -/
def baseOf (version headerSize : BitVec 16) (totalSize flags : BitVec 32)
    (body : List Byte) : TbfHeaderV2Base where
  version := version
  headerSize := headerSize
  totalSize := totalSize
  flags := flags
  checksum := (headerSize ++ version) ^^^ totalSize ^^^ flags ^^^ xorWords 4 body

variable (base : TbfHeaderV2Base)

def TbfHeaderV2Base.bytes : List Byte :=
  le16 base.version ++ le16 base.headerSize ++ le32 base.totalSize ++
    le32 base.flags ++ le32 base.checksum

def decoded (entries : List TlvEntry) : TbfHeader :=
  if entries.isEmpty then
    .padding base
  else
    let fields := fieldsOf entries
    .v2 {
      base := base
      main := fields.main
      program := fields.program
      packageName := some fields.packageName
      writeableRegions := fields.writeableRegions
      fixedAddresses := fields.fixedAddresses
      permissions := fields.permissions
      storagePermissions := fields.storagePermissions
      kernelVersion := fields.kernelVersion
      shortId := fields.shortId }

/-! ## One entry -/

@[simp]
theorem ok_bind {ε α β : Type} (a : α) (f : α → Except ε β) : (ok a >>= f) = f a := rfl

@[simp]
theorem map_ok {ε α β : Type} (a : α) (f : α → β) : (f <$> (ok a : Except ε α)) = .ok (f a) := rfl

theorem takeBytes_append (bytes rest : List Byte) :
    takeBytes (bytes ++ rest) bytes.length = .ok bytes := by
  simp [takeBytes, slice]

variable {bytes : List Byte}

theorem fixedEntry_append {tlv : TbfTlv} {n : ℕ}
    (rest : List Byte) (htlv : tlv.length.toNat = n) (hbytes : bytes.length = n) :
    fixedEntry tlv n (bytes ++ rest) = .ok bytes := by
  rw [fixedEntry, if_pos htlv, ← hbytes, takeBytes_append]

theorem tryFrom_tlv_bytes (tipe length : BitVec 16) : TbfTlv.tryFrom (le16 tipe ++ le16 length) =
      .ok { tipe := .ofU16 tipe, length := length } := by
  simp [TbfTlv.tryFrom, u16At, slice, le16]

theorem main_tryFrom_bytes (main : TbfHeaderV2Main) :
    TbfHeaderV2Main.tryFrom (TlvContent.main main).bytes = .ok main := by
  simp [TbfHeaderV2Main.tryFrom, TlvContent.bytes, u32At, slice, le32]

theorem program_tryFrom_bytes (program : TbfHeaderV2Program) :
    TbfHeaderV2Program.tryFrom (TlvContent.program program).bytes = .ok program := by
  simp [TbfHeaderV2Program.tryFrom, TlvContent.bytes, u32At, slice, le32]

theorem kernelVersion_tryFrom_bytes (version : TbfHeaderV2KernelVersion) :
    TbfHeaderV2KernelVersion.tryFrom (TlvContent.kernelVersion version).bytes = .ok version := by
  simp [TbfHeaderV2KernelVersion.tryFrom, TlvContent.bytes, u16At, slice, le16]

theorem shortId_tryFrom_bytes (shortId : BitVec 32) :
    TbfHeaderV2ShortId.tryFrom (TlvContent.shortId shortId).bytes =
      .ok ⟨if shortId = 0 then none else some shortId⟩ := by
  simp [TbfHeaderV2ShortId.tryFrom, nonZero, TlvContent.bytes, u32At, slice, le32]

theorem ofU16_of_ignored {tipe : BitVec 16} (h : tipe.toNat ∉ [1, 2, 3, 5, 6, 7, 8, 9, 10]) :
    TbfHeaderTypes.ofU16 tipe = .footerCredentials ∨ TbfHeaderTypes.ofU16 tipe = .unknown := by
  unfold TbfHeaderTypes.ofU16
  split <;> simp_all

/-- What an entry adds: its contents, unless it is a Main or Program entry and one
has been found. -/
def TlvContent.addTo (content : TlvContent) (fields : TlvFields) : TlvFields :=
  match content with
  | .main m => { fields with main := fields.main.or (some m) }
  | .program p => { fields with program := fields.program.or (some p) }
  | .writeableFlashRegions regions _ => { fields with writeableRegions := some regions }
  | .packageName name _ => { fields with packageName := name }
  | .fixedAddresses _ => { fields with fixedAddresses := some content.bytes }
  | .permissions bytes => { fields with permissions := some bytes }
  | .storagePermissions bytes => { fields with storagePermissions := some bytes }
  | .kernelVersion version => { fields with kernelVersion := some version }
  | .shortId id => { fields with shortId := some ⟨if id = 0 then none else some id⟩ }
  | .other _ _ _ => fields

theorem parseTlv_bytes (content : TlvContent) {length : BitVec 16}
    (hlength : length.toNat = content.bytes.length) (rest : List Byte) (fields : TlvFields) :
    parseTlv ⟨.ofU16 content.tipe, length⟩ (content.bytes ++ rest) fields =
      .ok (content.addTo fields) := by
  have htake : takeBytes (content.bytes ++ rest) length.toNat = .ok content.bytes := by
    rw [hlength, takeBytes_append]
  have hfixed (n : ℕ) (hn : content.bytes.length = n) :
      fixedEntry ⟨.ofU16 content.tipe, length⟩ n (content.bytes ++ rest) = .ok content.bytes :=
    fixedEntry_append rest (hlength.trans hn) hn
  generalize hkind : TbfHeaderTypes.ofU16 content.tipe = kind at hfixed ⊢
  unfold parseTlv TlvContent.addTo
  cases content with
  | main m =>
    obtain rfl : kind = .main := hkind.symm
    cases hmain : fields.main with
    | none => simp [hfixed 12 rfl, main_tryFrom_bytes]
    | some found =>
      simp
      rw [← hmain]
  | program p =>
    obtain rfl : kind = .program := hkind.symm
    cases hprogram : fields.program with
    | none => simp [hfixed 20 rfl, program_tryFrom_bytes]
    | some found =>
      simp
      rw [← hprogram]
  | writeableFlashRegions regions whole =>
    obtain rfl : kind = .writeableFlashRegions := hkind.symm
    have hwhole : length.toNat % 8 = 0 := hlength ▸ whole
    simp [hwhole, htake]
    rfl
  | packageName name utf8 =>
    obtain rfl : kind = .packageName := hkind.symm
    simp [htake]
    simp [TlvContent.bytes, utf8]
    rfl
  | fixedAddresses addresses =>
    obtain rfl : kind = .fixedAddresses := hkind.symm
    simp [hfixed 8 rfl]
  | permissions bytes =>
    obtain rfl : kind = .permissions := hkind.symm
    simp [htake]
    rfl
  | storagePermissions bytes =>
    obtain rfl : kind = .storagePermissions := hkind.symm
    simp [htake]
    rfl
  | kernelVersion version =>
    obtain rfl : kind = .kernelVersion := hkind.symm
    simp [hfixed 4 rfl, kernelVersion_tryFrom_bytes]
  | shortId id =>
    obtain rfl : kind = .shortId := hkind.symm
    simp [hfixed 4 rfl, shortId_tryFrom_bytes]
  | other tipe bytes ignored =>
    obtain rfl | rfl : kind = .footerCredentials ∨ kind = .unknown :=
      hkind ▸ ofU16_of_ignored ignored
    · rfl
    · rfl

theorem TlvEntry.toNat_length (e : TlvEntry) : e.length.toNat = e.content.bytes.length := by
  rw [length, BitVec.toNat_ofNat, Nat.mod_eq_of_lt e.short]

/-! ## The loop -/

theorem nextTlv_bytes (e : TlvEntry) (rest : List Byte) (fields : TlvFields) :
    nextTlv (e.bytes ++ rest) fields = .ok (rest, e.content.addTo fields) := by
  have hbytes : e.bytes ++ rest =
      (le16 e.content.tipe ++ le16 e.length) ++ (e.content.bytes ++ (e.padding ++ rest)) := by
    simp [TlvEntry.bytes]
  have hskip : sliceFrom (e.content.bytes ++ (e.padding ++ rest)) (skipLen e.length) =
      some rest := by
    have hlen : skipLen e.length = (e.content.bytes ++ e.padding).length := by
      rw [skipLen, e.toNat_length, length_append, e.padded]
    rw [sliceFrom, hlen, ← append_assoc, if_pos (by simp), drop_left]
  have htake : takeBytes (e.bytes ++ rest) 4 = .ok (le16 e.content.tipe ++ le16 e.length) :=
    hbytes ▸ takeBytes_append _ _
  have hdrop : (e.bytes ++ rest).drop 4 = e.content.bytes ++ (e.padding ++ rest) := by
    rw [hbytes]
    rfl
  rw [nextTlv, htake, hdrop]
  simp [tryFrom_tlv_bytes, parseTlv_bytes _ e.toNat_length, hskip]

theorem length_entry_bytes (e : TlvEntry) : 4 ≤ e.bytes.length := by
  simp [TlvEntry.bytes, le16]

theorem length_le_flatMap_bytes : entries.length ≤ (entries.flatMap TlvEntry.bytes).length := by
  induction entries with
  | nil => simp
  | cons e entries ih =>
    have he := length_entry_bytes e
    rw [flatMap_cons, length_append, length_cons]
    omega

variable {header : List Byte} {fuel : ℕ}

theorem parseTlvs_entries (fields : TlvFields) (hfuel : entries.length ≤ fuel) :
    parseTlvs fuel (entries.flatMap TlvEntry.bytes) fields =
      .ok (entries.foldl (fun fields e => e.content.addTo fields) fields) := by
  induction entries generalizing fuel fields with
  | nil => simp [parseTlvs]
  | cons e entries ih =>
    rw [length_cons] at hfuel
    obtain ⟨fuel, rfl⟩ : ∃ n, fuel = n + 1 := ⟨fuel - 1, by omega⟩
    have hbytes := length_entry_bytes e
    have hnext := nextTlv_bytes e (entries.flatMap TlvEntry.bytes) fields
    rw [flatMap_cons]
    obtain ⟨byte, bytes, hcons⟩ : ∃ byte bytes,
        e.bytes ++ entries.flatMap TlvEntry.bytes = byte :: bytes :=
      exists_cons_of_length_pos (by rw [length_append]; omega)
    rw [hcons] at hnext ⊢
    rw [parseTlvs, hnext]
    exact ih _ (by omega)

theorem addTo_fieldsOf (e : TlvEntry) :
    e.content.addTo (fieldsOf entries) = fieldsOf (entries ++ [e]) := by
  cases hcontent : e.content <;> simp [TlvContent.addTo, fieldsOf, hcontent]

theorem foldl_addTo :
    entries.foldl (fun fields e => e.content.addTo fields) .empty = fieldsOf entries := by
  induction entries using reverseRecOn with
  | nil => rfl
  | append_singleton entries e ih => rw [foldl_concat, ih, addTo_fieldsOf]

/-! ## The whole header -/

theorem base_tryFrom_bytes (body : List Byte) : tryFrom (base.bytes ++ body) = .ok base := by
  simp [tryFrom, bytes, le16, le32, u16At, u32At, slice]

theorem le16_append_le16 (high low : BitVec 16) :
    high.extractLsb' 8 8 ++ high.extractLsb' 0 8 ++ low.extractLsb' 8 8 ++
      low.extractLsb' 0 8 = high ++ low := by
  ext i hi
  simp only [BitVec.getElem_append]
  grind

theorem xorWords_base (body : List Byte) : xorWords 0 (base.bytes ++ body) =
      (base.headerSize ++ base.version) ^^^ base.totalSize ^^^ base.flags ^^^ xorWords 4 body := by
  simp only [bytes, le16, le32, cons_append, nil_append, xorWords, le16_append_le16]
  simp [BitVec.xor_assoc]

theorem parseTbfHeader_bytes (version headerSize : BitVec 16) (totalSize flags : BitVec 32)
    (entries : List TlvEntry) :
    let body := entries.flatMap TlvEntry.bytes
    let base := baseOf version headerSize totalSize flags body
    parseTbfHeader (base.bytes ++ body) 2 = .ok (decoded base entries) := by
  intro body base
  have hsum : xorWords 0 (base.bytes ++ body) = base.checksum := xorWords_base base body
  have hdrop : (base.bytes ++ body).drop 16 = body := rfl
  rw [parseTbfHeader, base_tryFrom_bytes, ok_bind]
  simp only [hsum, ne_eq, hdrop]
  cases entries with
  | nil => rfl
  | cons e entries =>
    have hlen : (e :: entries).length ≤ body.length := length_le_flatMap_bytes (e :: entries)
    have hloop := parseTlvs_entries (e :: entries) .empty hlen
    rw [foldl_addTo] at hloop
    obtain ⟨byte, bytes, hbody⟩ : ∃ byte bytes, body = byte :: bytes :=
      exists_cons_of_length_pos (by simp at hlen; omega)
    change parseTlvs body.length body .empty = _ at hloop
    rw [hbody] at hloop ⊢
    simp only [length_cons] at hloop
    dsimp only
    rw [hloop]
    rfl

/-! ## Headers with a different bit -/

def xorAll : List Byte → BitVec 32
  | a :: b :: c :: d :: rest => (d ++ c ++ b ++ a) ^^^ xorAll rest
  | _ => 0

def flipBit (bytes : List Byte) (i bit : ℕ) : List Byte :=
  bytes.modify i fun b => b ^^^ (1#8 <<< bit)

theorem xorWords_eq_xorAll (h : 3 < n) (bytes : List Byte) : xorWords n bytes = xorAll bytes := by
  fun_induction xorWords n bytes with
  | case1 i a b c d rest ih =>
    rw [if_neg (by omega), ih (by omega), xorAll]
  | case2 n bytes hshort =>
    rw [xorAll.eq_2]
    exact hshort

theorem append_xor (a b c d m : Byte) :
    (d ++ c ++ b ++ (a ^^^ m) = (d ++ c ++ b ++ a) ^^^ (0#8 ++ 0#8 ++ 0#8 ++ m)) ∧
    (d ++ c ++ (b ^^^ m) ++ a = (d ++ c ++ b ++ a) ^^^ (0#8 ++ 0#8 ++ m ++ 0#8)) ∧
    (d ++ (c ^^^ m) ++ b ++ a = (d ++ c ++ b ++ a) ^^^ (0#8 ++ m ++ 0#8 ++ 0#8)) ∧
    ((d ^^^ m) ++ c ++ b ++ a = (d ++ c ++ b ++ a) ^^^ (m ++ 0#8 ++ 0#8 ++ 0#8)) := by
  simp only [BitVec.xor_append, BitVec.xor_zero, and_self]

theorem append_ne_zero {m : Byte} (hm : m ≠ 0) :
    (0#8 ++ 0#8 ++ 0#8 ++ m ≠ 0#32) ∧ (0#8 ++ 0#8 ++ m ++ 0#8 ≠ 0#32) ∧
      (0#8 ++ m ++ 0#8 ++ 0#8 ≠ 0#32) ∧ (m ++ 0#8 ++ 0#8 ++ 0#8 ≠ 0#32) := by
  revert m
  decide +kernel

theorem xorAll_flipBit {i bit : ℕ}
    (hwords : 4 ∣ bytes.length) (hi : i < bytes.length) (hbit : bit < 8) :
    ∃ delta ≠ 0#32, xorAll (flipBit bytes i bit) = xorAll bytes ^^^ delta := by
  have hm : (1#8 <<< bit) ≠ 0 := by
    interval_cases bit <;> decide
  obtain ⟨hne0, hne1, hne2, hne3⟩ := append_ne_zero hm
  fun_induction xorAll bytes generalizing i with
  | case1 a b c d rest ih =>
    obtain ⟨hxor0, hxor1, hxor2, hxor3⟩ := append_xor a b c d (1#8 <<< bit)
    match i with
    | 0 =>
      refine ⟨_, hne0, ?_⟩
      simp [flipBit, xorAll, hxor0]
      ac_rfl
    | 1 =>
      refine ⟨_, hne1, ?_⟩
      simp [flipBit, xorAll, hxor1]
      ac_rfl
    | 2 =>
      refine ⟨_, hne2, ?_⟩
      simp [flipBit, xorAll, hxor2]
      ac_rfl
    | 3 =>
      refine ⟨_, hne3, ?_⟩
      simp [flipBit, xorAll, hxor3]
      ac_rfl
    | i + 4 =>
      simp only [length_cons] at hi hwords
      obtain ⟨delta, hdelta, h⟩ := ih (by omega) (by omega : i < rest.length)
      refine ⟨delta, hdelta, ?_⟩
      rw [flipBit] at h
      simp [flipBit, xorAll, h, BitVec.xor_assoc]
  | case2 bytes hshort =>
    -- fewer than four bytes are none at all
    match bytes, hwords, hi with
    | [_], hwords, _ => simp at hwords
    | [_, _], hwords, _ => simp at hwords
    | [_, _, _], hwords, _ => simp at hwords
    | a :: b :: c :: d :: rest, _, _ => exact absurd rfl (hshort a b c d rest)

/-! ## Accepted headers -/

theorem base_tryFrom_length {base : TbfHeaderV2Base}
    (h : tryFrom header = .ok base) : 16 ≤ header.length := by
  by_contra hshort
  rw [tryFrom, if_pos (by omega)] at h
  cases h

theorem checksum_eq_iff {base : TbfHeaderV2Base} (h : tryFrom header = .ok base) :
    xorWords 0 header = base.checksum ↔ xorAll header = 0#32 := by
  have hlen := base_tryFrom_length h
  match header, hlen with
  | b0 :: b1 :: b2 :: b3 :: b4 :: b5 :: b6 :: b7 :: b8 :: b9 :: b10 :: b11 ::
      b12 :: b13 :: b14 :: b15 :: rest, hlen =>
    rw [tryFrom, if_neg (by omega)] at h
    simp [u16At, u32At, slice] at h
    obtain rfl := h
    rw [← BitVec.xor_eq_zero_iff]
    refine iff_of_eq (congrArg (· = 0#32) ?_)
    simp only [xorWords, xorAll, xorWords_eq_xorAll (by omega : 3 < 0 + 1 + 1 + 1 + 1)]
    ac_rfl

theorem nextTlv_ok {remaining rest : List Byte} {fields fields' : TlvFields}
    (h : nextTlv remaining fields = .ok (rest, fields')) :
    ∃ length, 4 + skipLen length ≤ remaining.length ∧
      rest = remaining.drop (4 + skipLen length) := by
  obtain ⟨head, hhead, h⟩ := of_bind_ok h
  obtain ⟨tlv, -, h⟩ := of_bind_ok h
  obtain ⟨_, -, h⟩ := of_bind_ok h
  cases hrest : sliceFrom (remaining.drop 4) (skipLen tlv.length) with
  | none =>
    rw [hrest] at h
    cases h
  | some rest =>
    rw [hrest] at h
    cases h
    obtain ⟨hle, rfl⟩ := sliceFrom_eq_some hrest
    have hfour : 4 ≤ remaining.length := by
      by_contra hshort
      rw [takeBytes, slice, if_neg (by omega)] at hhead
      cases hhead
    rw [length_drop] at hle
    exact ⟨tlv.length, by omega, drop_drop⟩

theorem parseTlvs_ok_length {remaining : List Byte} {fields found : TlvFields}
    (h : parseTlvs fuel remaining fields = .ok found) : 4 ∣ remaining.length := by
  induction fuel generalizing remaining fields with
  | zero =>
    cases remaining with
    | nil => simp
    | cons byte bytes => cases h
  | succ fuel ih =>
    cases remaining with
    | nil => simp
    | cons byte bytes =>
      obtain ⟨⟨_, _⟩, hnext, hrest⟩ := of_bind_ok h
      obtain ⟨length, hle, rfl⟩ := nextTlv_ok hnext
      have hdvd := ih hrest
      rw [length_drop] at hdvd
      have hskip : 4 ∣ skipLen length := Nat.dvd_mul_left 4 _
      omega

theorem parseTbfHeader_ok {version : BitVec 16} {parsed : TbfHeader}
    (h : parseTbfHeader header version = .ok parsed) :
    16 ≤ header.length ∧ 4 ∣ header.length ∧ xorAll header = 0#32 := by
  unfold parseTbfHeader at h
  split at h
  next =>
    obtain ⟨base, hbase, h⟩ := of_bind_ok h
    have hlen := base_tryFrom_length hbase
    by_cases hsum : xorWords 0 header = base.checksum
    case neg =>
      simp only [ne_eq, hsum, not_false_eq_true] at h
      cases h
    case pos =>
      refine ⟨hlen, ?_, (checksum_eq_iff hbase).mp hsum⟩
      simp only [ne_eq, hsum, not_true_eq_false, if_false] at h
      have hdvd : 4 ∣ (header.drop 16).length := by
        split at h
        next hnone => simp [hnone]
        next byte bytes hsome =>
          obtain ⟨_, hfields, -⟩ := of_bind_ok h
          rw [hsome]
          exact parseTlvs_ok_length hfields
      rw [length_drop] at hdvd
      omega
  next => cases h

theorem parseTbfHeader_error (version : BitVec 16) (h : xorAll header ≠ 0#32) :
    ∃ error, parseTbfHeader header version = .error error := by
  cases hparse : parseTbfHeader header version with
  | error error => exact ⟨error, rfl⟩
  | ok parsed => exact absurd (parseTbfHeader_ok hparse).2.2 h

/-- The loop over the entries, with no bound on its iterations: it ends where no
bytes remain or an entry is refused. -/
inductive TlvLoop : List Byte → TlvFields → Except TbfParseError TlvFields → Prop
  | ended (fields : TlvFields) : TlvLoop [] fields (.ok fields)
  | failed {remaining : List Byte} {fields : TlvFields} {error : TbfParseError} :
      remaining ≠ [] → nextTlv remaining fields = .error error →
      TlvLoop remaining fields (.error error)
  | next {remaining rest : List Byte} {fields fields' : TlvFields}
      {result : Except TbfParseError TlvFields} :
      remaining ≠ [] → nextTlv remaining fields = .ok (rest, fields') →
      TlvLoop rest fields' result → TlvLoop remaining fields result

theorem tlvLoop_parseTlvs {remaining : List Byte} (fields : TlvFields)
    (hfuel : remaining.length ≤ fuel) :
    TlvLoop remaining fields (parseTlvs fuel remaining fields) := by
  induction fuel generalizing remaining fields with
  | zero =>
    obtain rfl : remaining = [] := length_eq_zero_iff.mp (by omega)
    exact .ended fields
  | succ fuel ih =>
    cases remaining with
    | nil => exact .ended fields
    | cons byte bytes =>
      have hmore : byte :: bytes ≠ [] := cons_ne_nil byte bytes
      rw [parseTlvs]
      cases hnext : nextTlv (byte :: bytes) fields with
      | error error => exact .failed hmore hnext
      | ok next =>
        obtain ⟨rest, fields⟩ := next
        obtain ⟨_, _, rfl⟩ := nextTlv_ok hnext
        refine .next hmore hnext (ih fields ?_)
        rw [length_drop]
        omega

/-- A header put together from a base and entries is decoded; whatever the header
is, the loop ends before it has passed over more entries than there are bytes;
and an accepted header is no longer accepted with one bit flipped. -/
theorem parseTbfHeader_correct :
    (∀ (version headerSize : BitVec 16) (totalSize flags : BitVec 32) (entries : List TlvEntry),
      let body := entries.flatMap TlvEntry.bytes
      let base := baseOf version headerSize totalSize flags body
      parseTbfHeader (base.bytes ++ body) 2 = .ok (decoded base entries)) ∧
    (∀ (remaining : List Byte) (fields : TlvFields) (fuel : ℕ), remaining.length ≤ fuel →
      TlvLoop remaining fields (parseTlvs fuel remaining fields)) ∧
    (∀ (header : List Byte) (version : BitVec 16) (parsed : TbfHeader),
      parseTbfHeader header version = .ok parsed → ∀ i < header.length, ∀ bit < 8,
        ∃ error, parseTbfHeader (flipBit header i bit) version = .error error) := by
  refine ⟨parseTbfHeader_bytes, ?_, ?_⟩
  · intro remaining fields fuel hfuel
    exact tlvLoop_parseTlvs fields hfuel
  · intro header version parsed hparsed i hi bit hbit
    obtain ⟨-, hwords, hzero⟩ := parseTbfHeader_ok hparsed
    obtain ⟨_, hdelta, hflip⟩ := xorAll_flipBit hwords hi hbit
    apply parseTbfHeader_error
    rwa [hflip, hzero, BitVec.zero_xor]

/-- Two Main entries, one of an unknown type, and a short identifier. -/
def sampleEntries : List TlvEntry :=
  [⟨.main ⟨1, 2, 3⟩, [], by decide, by decide⟩,
   ⟨.other 77 [1, 2, 3] (by decide), [9], by decide, by decide⟩,
   ⟨.main ⟨4, 5, 6⟩, [], by decide, by decide⟩,
   ⟨.shortId 7, [], by decide, by decide⟩]

def sampleBase : TbfHeaderV2Base :=
  baseOf 2 64 256 1 (sampleEntries.flatMap TlvEntry.bytes)

def sampleHeader : List Byte :=
  sampleBase.bytes ++ sampleEntries.flatMap TlvEntry.bytes

theorem parseTbfHeader_correct_sample : (fieldsOf sampleEntries).main = some ⟨1, 2, 3⟩ ∧
      parseTbfHeader sampleHeader 2 = .ok (decoded sampleBase sampleEntries) ∧
      (∃ error, parseTbfHeader (flipBit sampleHeader 20 3) 2 = .error error) := by
  have hparsed := parseTbfHeader_correct.1 2 64 256 1 sampleEntries
  exact ⟨rfl, hparsed,
    parseTbfHeader_correct.2.2 sampleHeader 2 _ hparsed 20 (by decide) 3 (by decide)⟩

end TockKernel.Tbf

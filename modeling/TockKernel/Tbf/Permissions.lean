import TockKernel.ProcessTypes
import TockKernel.Tbf.Parse

/-!
# Permissions for commands

The search of `get_command_permissions` in `libraries/tock-tbf/src/types.rs` and
the filter `TbfHeaderFilterDefaultAllow` of `kernel/src/platform/platform.rs`. A
list of permissions that is shorter than its own count stops the search with an
error, and the error is taken for a header without permissions: the filter then
lets everything through.
-/

namespace TockKernel.Tbf

open Option TbfParseError

structure TbfHeaderDriverPermission where
  driverNumber : BitVec 32
  offset : BitVec 32
  allowedCommands : BitVec 64
  deriving DecidableEq

inductive CommandPermissions where
  | noPermsAtAll
  | noPermsThisDriver
  | mask (allowed : BitVec 64)
  deriving DecidableEq

def TbfHeaderDriverPermission.tryFrom (b : List Byte) :
    Except TbfParseError TbfHeaderDriverPermission := do
  if b.length < 16 then
    throw .internalError
  return {
    driverNumber := ← u32At b 0 .internalError
    offset := ← u32At b 4 .internalError
    allowedCommands :=
      (← u32At b 12 .internalError) ++ (← u32At b 8 .internalError) }

/-- The entry with index `i` of the slice behind the count. -/
def permissionAt (permissions : List Byte) (i : ℕ) : Option TbfHeaderDriverPermission :=
  (slice permissions (i * 16) ((i + 1) * 16)).bind fun b =>
    (TbfHeaderDriverPermission.tryFrom b).toOption

def searchPermissions (permissions : List Byte) (driverNum offset : BitVec 32) :
    ℕ → ℕ → Bool → Option CommandPermissions
  | 0, _, found => some (if found then .mask 0 else .noPermsThisDriver)
  | left + 1, i, found => do
      let perm ← permissionAt permissions i
      if perm.driverNumber = driverNum then
        if perm.offset = offset then
          return .mask perm.allowedCommands
        else
          searchPermissions permissions driverNum offset left (i + 1) true
      else
        searchPermissions permissions driverNum offset left (i + 1) found

variable (tlv : List Byte)

def getCommandPermissionsResult (driverNum offset : BitVec 32) : Option CommandPermissions := do
  let numberPerms ← (u16At tlv 0 ()).toOption
  let permissions ← sliceFrom tlv 2
  searchPermissions permissions driverNum offset numberPerms.toNat 0 false

def TbfHeader.getCommandPermissions (header : TbfHeader)
    (driverNum offset : BitVec 32) : CommandPermissions :=
  match header with
  | .v2 hd =>
    match hd.permissions with
    | some tlv =>
      (getCommandPermissionsResult tlv driverNum offset).getD .noPermsAtAll
    | none => .noPermsAtAll
  | .padding _ => .noPermsAtAll

def filterDriver (header : TbfHeader) (driverNumber : Usize) : Except ErrorCode Unit :=
  match header.getCommandPermissions driverNumber 0 with
  | .noPermsAtAll => .ok ()
  | .noPermsThisDriver => .error .nodevice
  | .mask _ => .ok ()

/-- `TbfHeaderFilterDefaultAllow`, for a process with this header. -/
def filterSyscall (header : TbfHeader) : Syscall → Except ErrorCode Unit
  | .subscribe driverNumber _ _ _ => filterDriver header driverNumber
  | .command driverNumber subdriverNumber _ _ =>
    match header.getCommandPermissions driverNumber (subdriverNumber / 64) with
    | .noPermsAtAll => .ok ()
    | .noPermsThisDriver => .error .nodevice
    | .mask allowed =>
      if (1#64 <<< (subdriverNumber % 64).toNat) &&& allowed > 0 then
        .ok ()
      else
        .error .nodevice
  | .readWriteAllow driverNumber _ _ _ => filterDriver header driverNumber
  | .userspaceReadableAllow driverNumber _ _ _ => filterDriver header driverNumber
  | .readOnlyAllow driverNumber _ _ _ => filterDriver header driverNumber
  | .yield _ _ _ | .memop _ _ | .exit _ _ => .ok ()

/-! ## What the list contains -/

def declared : ℕ :=
  match u16At tlv 0 () with
  | .ok count => count.toNat
  | .error _ => 0

def Contains (perm : TbfHeaderDriverPermission) : Prop :=
  ∃ i < declared tlv, permissionAt (tlv.drop 2) i = some perm

def Whole : Prop := 2 + 16 * declared tlv ≤ tlv.length ∧ 2 ≤ tlv.length

def Granted : Syscall → Prop
  | .command driverNumber subdriverNumber _ _ =>
    ∃ perm, Contains tlv perm ∧ perm.driverNumber = driverNumber ∧
      perm.offset = subdriverNumber / 64 ∧
      perm.allowedCommands.getLsbD (subdriverNumber % 64).toNat = true
  | .subscribe driverNumber _ _ _ | .readWriteAllow driverNumber _ _ _
  | .userspaceReadableAllow driverNumber _ _ _ | .readOnlyAllow driverNumber _ _ _ =>
    ∃ perm, Contains tlv perm ∧ perm.driverNumber = driverNumber
  | .yield _ _ _ | .memop _ _ | .exit _ _ => True

def Mentioned : Syscall → Prop
  | .command driverNumber subdriverNumber _ _ =>
    ∃ perm, Contains tlv perm ∧ perm.driverNumber = driverNumber ∧
      perm.offset = subdriverNumber / 64
  | .subscribe driverNumber _ _ _ | .readWriteAllow driverNumber _ _ _
  | .userspaceReadableAllow driverNumber _ _ _ | .readOnlyAllow driverNumber _ _ _ =>
    ∃ perm, Contains tlv perm ∧ perm.driverNumber = driverNumber
  | .yield _ _ _ | .memop _ _ | .exit _ _ => True

/-! ## The search -/

section Search

variable {permissions : List Byte} {driverNum offset : BitVec 32} {i left : ℕ}

theorem permissionAt_isSome_iff :
    (permissionAt permissions i).isSome ↔ (i + 1) * 16 ≤ permissions.length := by
  constructor
  · intro h
    obtain ⟨_, hperm⟩ := isSome_iff_exists.mp h
    obtain ⟨b, hslice, -⟩ := bind_eq_some_iff.mp hperm
    exact (slice_eq_some hslice).2.1
  · intro h
    have hslice : slice permissions (i * 16) ((i + 1) * 16) =
        some ((permissions.drop (i * 16)).take ((i + 1) * 16 - i * 16)) :=
      if_pos ⟨by omega, h⟩
    have hlen := (slice_eq_some hslice).2.2
    generalize (permissions.drop (i * 16)).take ((i + 1) * 16 - i * 16) = b at hslice hlen
    obtain ⟨_, hdriver⟩ := u32At_of_le internalError (show 0 + 4 ≤ b.length by omega)
    obtain ⟨_, hoff⟩ := u32At_of_le internalError (show 4 + 4 ≤ b.length by omega)
    obtain ⟨_, hlow⟩ := u32At_of_le internalError (show 8 + 4 ≤ b.length by omega)
    obtain ⟨high, hhigh⟩ := u32At_of_le internalError (show 12 + 4 ≤ b.length by omega)
    have hnot : ¬ b.length < 16 := by omega
    simp [permissionAt, hslice, TbfHeaderDriverPermission.tryFrom, hnot, hdriver,
      hoff, hlow, hhigh, bind, Except.bind, pure, Except.pure, Except.toOption]

theorem permissionAt_of_lt {perm : TbfHeaderDriverPermission}
    (h : permissionAt permissions j = some perm) (hij : i ≤ j) :
    ∃ perm', permissionAt permissions i = some perm' := by
  have hj := permissionAt_isSome_iff.mp (isSome_iff_exists.mpr ⟨perm, h⟩)
  exact isSome_iff_exists.mp (permissionAt_isSome_iff.mpr (by omega))

/-- An entry for this driver, and one for this driver and offset, among those from
`i` on. -/
def DriverIn (permissions : List Byte) (driverNum : BitVec 32) (i left : ℕ) : Prop :=
  ∃ j perm, i ≤ j ∧ j < i + left ∧ permissionAt permissions j = some perm ∧
    perm.driverNumber = driverNum

def MatchIn (permissions : List Byte) (driverNum offset : BitVec 32) (i left : ℕ)
    (allowed : BitVec 64) : Prop :=
  ∃ j perm, i ≤ j ∧ j < i + left ∧ permissionAt permissions j = some perm ∧
    perm.driverNumber = driverNum ∧ perm.offset = offset ∧ perm.allowedCommands = allowed

theorem MatchIn.later {allowed : BitVec 64}
    (h : MatchIn permissions driverNum offset (i + 1) left allowed) :
    MatchIn permissions driverNum offset i (left + 1) allowed := by
  obtain ⟨j, perm, hi, hj, hperm⟩ := h
  exact ⟨j, perm, by omega, by omega, hperm⟩

theorem DriverIn.later (h : DriverIn permissions driverNum (i + 1) left) :
    DriverIn permissions driverNum i (left + 1) := by
  obtain ⟨j, perm, hi, hj, hperm⟩ := h
  exact ⟨j, perm, by omega, by omega, hperm⟩

theorem searchPermissions_eq_some {found : Bool} {result : CommandPermissions}
    (h : searchPermissions permissions driverNum offset left i found = some result) :
    (∃ allowed, result = .mask allowed ∧ MatchIn permissions driverNum offset i left allowed) ∨
      (result = .mask 0 ∧ (found ∨ DriverIn permissions driverNum i left)) ∨
      (result = .noPermsThisDriver ∧ found = false) := by
  induction left generalizing i found with
  | zero =>
    cases found <;> cases h
    · exact .inr (.inr ⟨rfl, rfl⟩)
    · exact .inr (.inl ⟨rfl, .inl rfl⟩)
  | succ left ih =>
    obtain ⟨perm, hperm, h⟩ := bind_eq_some_iff.mp h
    split at h
    next hdriver =>
      split at h
      next hoffset =>
        cases h
        exact .inl ⟨_, rfl, i, perm, le_rfl, by omega, hperm, hdriver, hoffset, rfl⟩
      have hhere : DriverIn permissions driverNum i (left + 1) :=
        ⟨i, perm, le_rfl, by omega, hperm, hdriver⟩
      obtain ⟨allowed, hres, hmatch⟩ | ⟨hres, -⟩ | ⟨-, hnot⟩ := ih h
      · exact .inl ⟨allowed, hres, hmatch.later⟩
      · exact .inr (.inl ⟨hres, .inr hhere⟩)
      · cases hnot
    next =>
      obtain ⟨allowed, hres, hmatch⟩ | ⟨hres, hfound⟩ | hnone := ih h
      · exact .inl ⟨allowed, hres, hmatch.later⟩
      · exact .inr (.inl ⟨hres, hfound.imp_right DriverIn.later⟩)
      · exact .inr (.inr hnone)

theorem searchPermissions_eq_none_iff {found : Bool} :
    searchPermissions permissions driverNum offset left i found = none ↔
      (0 < left ∧ permissions.length < (i + left) * 16) ∧
        ∀ allowed, ¬ MatchIn permissions driverNum offset i left allowed := by
  induction left generalizing i found with
  | zero =>
    constructor
    · intro h
      cases h
    · rintro ⟨⟨hpos, -⟩, -⟩
      omega
  | succ left ih =>
    have hlast : (i + 1 + left) * 16 = (i + (left + 1)) * 16 := by omega
    rw [searchPermissions]
    cases hperm : permissionAt permissions i with
    | none =>
      have hshort : permissions.length < (i + 1) * 16 := by
        by_contra hlong
        have := permissionAt_isSome_iff.mpr (Nat.le_of_not_lt hlong)
        simp [hperm] at this
      constructor
      · intro _
        refine ⟨⟨by omega, by omega⟩, ?_⟩
        rintro allowed ⟨j, perm, hi, -, hj, -⟩
        obtain ⟨perm', hperm'⟩ := permissionAt_of_lt hj hi
        rw [hperm] at hperm'
        cases hperm'
      · intro _
        rfl
    | some perm =>
      have hhere : (i + 1) * 16 ≤ permissions.length :=
        permissionAt_isSome_iff.mp (by rw [hperm]; rfl)
      change (if perm.driverNumber = driverNum then _ else _) = _ ↔ _
      by_cases hmatch : perm.driverNumber = driverNum ∧ perm.offset = offset
      · rw [if_pos hmatch.1, if_pos hmatch.2]
        constructor
        · intro h
          cases h
        · rintro ⟨-, hnone⟩
          exact (hnone _ ⟨i, perm, le_rfl, by omega, hperm, hmatch.1, hmatch.2, rfl⟩).elim
      have hstep : ∀ found', (searchPermissions permissions driverNum offset left
          (i + 1) found' = none ↔ (0 < left + 1 ∧ permissions.length < (i + (left + 1)) * 16) ∧
          ∀ allowed, ¬ MatchIn permissions driverNum offset i (left + 1) allowed) := by
        intro found'
        rw [ih, hlast]
        constructor
        · rintro ⟨⟨hpos, hshort⟩, hnone⟩
          refine ⟨⟨by omega, hshort⟩, ?_⟩
          rintro allowed ⟨j, perm', hi, hj, hperm', hrest⟩
          rcases Nat.eq_or_lt_of_le hi with rfl | hlt
          · rw [hperm] at hperm'
            cases hperm'
            exact hmatch ⟨hrest.1, hrest.2.1⟩
          · exact hnone allowed ⟨j, perm', hlt, by omega, hperm', hrest⟩
        · rintro ⟨⟨-, hshort⟩, hnone⟩
          exact ⟨⟨by omega, hshort⟩, fun allowed h => hnone allowed h.later⟩
      split
      next hdriver =>
        rw [if_neg fun hoffset => hmatch ⟨hdriver, hoffset⟩]
        exact hstep true
      next => exact hstep found

end Search

/-! ## The filter -/

section Filter

variable {tlv : List Byte} {driverNum offset : BitVec 32}

theorem u16At_of_short (h : tlv.length < 2) : u16At tlv 0 () = .error () := by
  rw [u16At, slice, if_neg (by omega)]

theorem getCommandPermissionsResult_eq (h : 2 ≤ tlv.length) :
    getCommandPermissionsResult tlv driverNum offset =
      searchPermissions (tlv.drop 2) driverNum offset (declared tlv) 0 false := by
  obtain ⟨a, b, hbytes⟩ : ∃ a b, tlv.take 2 = [a, b] :=
    List.length_eq_two.mp (by rw [List.length_take]; omega)
  have hcount : u16At tlv 0 () = .ok (b ++ a) := by
    rw [u16At, slice, if_pos ⟨by omega, by omega⟩, List.drop_zero, hbytes]
  have hrest : sliceFrom tlv 2 = some (tlv.drop 2) := if_pos h
  rw [getCommandPermissionsResult, declared, hcount, hrest]
  rfl

theorem exists_matchIn_iff :
    (∃ allowed, MatchIn (tlv.drop 2) driverNum offset 0 (declared tlv) allowed) ↔
      ∃ perm, Contains tlv perm ∧ perm.driverNumber = driverNum ∧ perm.offset = offset := by
  constructor
  · rintro ⟨allowed, j, perm, -, hj, hperm, hdriver, hoffset, -⟩
    exact ⟨perm, ⟨j, by omega, hperm⟩, hdriver, hoffset⟩
  · rintro ⟨perm, ⟨j, hj, hperm⟩, hdriver, hoffset⟩
    exact ⟨_, j, perm, by omega, by omega, hperm, hdriver, hoffset, rfl⟩

theorem getCommandPermissionsResult_eq_none_iff :
    getCommandPermissionsResult tlv driverNum offset = none ↔
      ¬ Whole tlv ∧ ¬ ∃ perm, Contains tlv perm ∧ perm.driverNumber = driverNum ∧
        perm.offset = offset := by
  rw [← exists_matchIn_iff]
  rcases Nat.lt_or_ge tlv.length 2 with hshort | hlong
  · have hnone : declared tlv = 0 := by rw [declared, u16At_of_short hshort]
    have hres : getCommandPermissionsResult tlv driverNum offset = none := by
      rw [getCommandPermissionsResult, u16At_of_short hshort]
      rfl
    refine ⟨fun _ => ⟨fun hwhole => by have := hwhole.2; omega, ?_⟩, fun _ => hres⟩
    rintro ⟨-, j, perm, -, hj, -⟩
    omega
  rw [getCommandPermissionsResult_eq hlong, searchPermissions_eq_none_iff,
    List.length_drop, not_exists]
  unfold Whole
  constructor
  · rintro ⟨⟨-, hmissing⟩, hnone⟩
    exact ⟨by omega, hnone⟩
  · rintro ⟨hnot, hnone⟩
    exact ⟨⟨by omega, by omega⟩, hnone⟩

theorem bit_and_pos_iff (hn : n < 64) (allowed : BitVec 64) :
    (1#64 <<< n) &&& allowed > 0 ↔ allowed.getLsbD n := by
  rw [← BitVec.twoPow_eq, BitVec.and_comm, BitVec.and_twoPow]
  have hpos : BitVec.twoPow 64 n > 0 := by
    rw [gt_iff_lt, BitVec.lt_def, BitVec.toNat_twoPow, Nat.mod_eq_of_lt
      (Nat.pow_lt_pow_right (by omega) hn)]
    exact Nat.two_pow_pos n
  split
  next hbit => exact iff_of_true hpos hbit
  next hbit => exact iff_of_false (by simp) hbit

variable {hd : TbfHeaderV2}

theorem getCommandPermissions_eq (h : hd.permissions = some tlv) :
    (TbfHeader.v2 hd).getCommandPermissions driverNum offset =
      (getCommandPermissionsResult tlv driverNum offset).getD .noPermsAtAll := by
  simp [TbfHeader.getCommandPermissions, h]

theorem getCommandPermissionsResult_eq_some {result : CommandPermissions}
    (h : getCommandPermissionsResult tlv driverNum offset = some result) :
    (∃ perm, result = .mask perm.allowedCommands ∧ Contains tlv perm ∧
        perm.driverNumber = driverNum ∧ perm.offset = offset) ∨
      (result = .mask 0 ∧ ∃ perm, Contains tlv perm ∧ perm.driverNumber = driverNum) ∨
      result = .noPermsThisDriver := by
  rcases Nat.lt_or_ge tlv.length 2 with hshort | hlong
  · rw [getCommandPermissionsResult, u16At_of_short hshort] at h
    cases h
  rw [getCommandPermissionsResult_eq hlong] at h
  obtain ⟨_, rfl, j, perm, -, hj, hperm, hdriver, hoffset, rfl⟩ |
    ⟨rfl, hfound | ⟨j, perm, -, hj, hperm, hdriver⟩⟩ | ⟨rfl, -⟩ := searchPermissions_eq_some h
  · exact .inl ⟨perm, rfl, ⟨j, by omega, hperm⟩, hdriver, hoffset⟩
  · cases hfound
  · exact .inr (.inl ⟨rfl, perm, ⟨j, by omega, hperm⟩, hdriver⟩)
  · exact .inr (.inr rfl)

section

variable (h : hd.permissions = some tlv)
include h

theorem filterDriver_eq_ok : filterDriver (.v2 hd) driverNum = .ok () →
      (∃ perm, Contains tlv perm ∧ perm.driverNumber = driverNum) ∨
        getCommandPermissionsResult tlv driverNum 0 = none := by
  unfold filterDriver
  rw [getCommandPermissions_eq h]
  cases hres : getCommandPermissionsResult tlv driverNum 0 with
  | none => exact fun _ => .inr rfl
  | some result =>
    intro hok
    obtain ⟨perm, rfl, hcontains, hdriver, -⟩ | ⟨rfl, hdriver⟩ | rfl :=
      getCommandPermissionsResult_eq_some hres
    · exact .inl ⟨perm, hcontains, hdriver⟩
    · exact .inl hdriver
    · cases hok

theorem filterDriver_of_none (hnone : getCommandPermissionsResult tlv driverNum 0 = none) :
    filterDriver (.v2 hd) driverNum = .ok () := by
  rw [filterDriver, getCommandPermissions_eq h, hnone]
  rfl

theorem filterDriver_closed_iff : (filterDriver (.v2 hd) driverNum = .ok () →
        ∃ perm, Contains tlv perm ∧ perm.driverNumber = driverNum) ↔
      Whole tlv ∨ ∃ perm, Contains tlv perm ∧ perm.driverNumber = driverNum := by
  constructor
  · intro hclosed
    by_contra hnot
    obtain ⟨hpart, hunlisted⟩ := not_or.mp hnot
    refine hunlisted (hclosed (filterDriver_of_none h ?_))
    rw [getCommandPermissionsResult_eq_none_iff]
    refine ⟨hpart, ?_⟩
    rintro ⟨perm, hcontains, hdriver, -⟩
    exact hunlisted ⟨perm, hcontains, hdriver⟩
  · rintro (hwhole | hlisted) hok
    · rcases filterDriver_eq_ok h hok with hlisted | hnone
      · exact hlisted
      · exact absurd hwhole (getCommandPermissionsResult_eq_none_iff.mp hnone).1
    · exact hlisted

theorem filterCommand_closed_iff (driver command arg0 arg1 : Usize) :
    (filterSyscall (.v2 hd) (.command driver command arg0 arg1) = .ok () →
        Granted tlv (.command driver command arg0 arg1)) ↔
      Whole tlv ∨ Mentioned tlv (.command driver command arg0 arg1) := by
  have hbit : (command % 64).toNat < 64 := by
    exact Nat.mod_lt _ (by decide)
  unfold filterSyscall
  dsimp only
  rw [getCommandPermissions_eq h]
  cases hres : getCommandPermissionsResult tlv driver (command / 64) with
  | none =>
    obtain ⟨hpart, hunlisted⟩ := getCommandPermissionsResult_eq_none_iff.mp hres
    constructor
    · intro hclosed
      obtain ⟨perm, hcontains, hdriver, hoffset, -⟩ := hclosed rfl
      exact .inr ⟨perm, hcontains, hdriver, hoffset⟩
    · intro hnot
      exact absurd hnot (not_or.mpr ⟨hpart, hunlisted⟩)
  | some result =>
    have hcondition : Whole tlv ∨ Mentioned tlv (.command driver command arg0 arg1) := by
      by_contra hnot
      have hnone := getCommandPermissionsResult_eq_none_iff.mpr (not_or.mp hnot)
      rw [hres] at hnone
      cases hnone
    refine ⟨fun _ => hcondition, fun _ => ?_⟩
    obtain ⟨perm, rfl, hcontains, hdriver, hoffset⟩ | ⟨rfl, -⟩ | rfl :=
      getCommandPermissionsResult_eq_some hres
    · intro hok
      have hset := (bit_and_pos_iff hbit perm.allowedCommands).mp (by
        by_contra hnot
        simp only [getD_some, if_neg hnot] at hok
        cases hok)
      exact ⟨perm, hcontains, hdriver, hoffset, hset⟩
    · intro hok
      simp at hok
    · intro hok
      cases hok

end

theorem exists_unlisted (tlv : List Byte) :
    ∃ driver, ¬ ∃ perm, Contains tlv perm ∧ perm.driverNumber = driver := by
  have hdeclared : declared tlv < 2 ^ 16 := by
    unfold declared
    split
    · exact BitVec.isLt _
    · decide
  let listed : Finset ℕ := (Finset.range (declared tlv)).image fun i =>
    ((permissionAt (tlv.drop 2) i).map (·.driverNumber.toNat)).getD 0
  have hcard : listed.card < (Finset.range (2 ^ 32)).card := by
    calc
      listed.card ≤ (Finset.range (declared tlv)).card := Finset.card_image_le
      _ = declared tlv := Finset.card_range _
      _ < 2 ^ 16 := hdeclared
      _ < 2 ^ 32 := by decide
      _ = (Finset.range (2 ^ 32)).card := (Finset.card_range _).symm
  obtain ⟨driver, hdriver, hunlisted⟩ := Finset.exists_mem_notMem_of_card_lt_card hcard
  refine ⟨BitVec.ofNat 32 driver, ?_⟩
  rintro ⟨perm, ⟨i, hi, hperm⟩, hsame⟩
  refine hunlisted (Finset.mem_image.mpr ⟨i, Finset.mem_range.mpr hi, ?_⟩)
  rw [hperm, map_some, getD_some, hsame, BitVec.toNat_ofNat,
    Nat.mod_eq_of_lt (Finset.mem_range.mp hdriver)]

/-- A header without a list of permissions lets everything through. With a list,
a call is let through only if the list grants it, iff the list is whole or has an
entry for what the call is about; a whole list never lets everything through. -/
theorem filterSyscall_closed_iff (hd : TbfHeaderV2) :
    (hd.permissions = none → ∀ call, filterSyscall (.v2 hd) call = .ok ()) ∧
    ∀ tlv, hd.permissions = some tlv →
      (∀ call, (filterSyscall (.v2 hd) call = .ok () → Granted tlv call) ↔
        Whole tlv ∨ Mentioned tlv call) ∧
      (Whole tlv → ∃ call, filterSyscall (.v2 hd) call ≠ .ok ()) := by
  constructor
  · intro hnone call
    cases call <;>
      simp [filterSyscall, filterDriver, TbfHeader.getCommandPermissions, hnone]
  · intro tlv h
    constructor
    · intro call
      cases call with
      | command driver command arg0 arg1 =>
        exact filterCommand_closed_iff h driver command arg0 arg1
      | subscribe | readWriteAllow | userspaceReadableAllow | readOnlyAllow =>
        exact filterDriver_closed_iff h
      | yield | memop | exit =>
        exact iff_of_true (fun _ => trivial) (.inr trivial)
    · intro hwhole
      obtain ⟨driver, hunlisted⟩ := exists_unlisted tlv
      refine ⟨.subscribe driver 0 0 0, ?_⟩
      intro hok
      exact hunlisted ((filterDriver_closed_iff h).mpr (.inl hwhole) hok)

end Filter

/-! ## Two headers -/

def headerWith : TbfHeaderV2 where
  base := ⟨2, 24, 256, 1, 0x001a0104⟩
  main := none
  program := none
  packageName := some []
  writeableRegions := none
  fixedAddresses := none
  permissions := some tlv
  storagePermissions := none
  kernelVersion := none
  shortId := none

def sampleList : List Byte :=
  [1, 0, 5, 0, 0, 0, 0, 0, 0, 0, 2, 0, 0, 0, 0, 0, 0, 0]

theorem filterSyscall_closed_sample :
    (∀ call, filterSyscall (.v2 (headerWith sampleList)) call = .ok () → Granted sampleList call) ∧
      filterSyscall (.v2 (headerWith sampleList)) (.command 5 1 0 0) = .ok () ∧
      filterSyscall (.v2 (headerWith sampleList)) (.command 5 2 0 0) = .error .nodevice := by
  have hwhole : Whole sampleList := ⟨by decide, by decide⟩
  have hclosed := ((filterSyscall_closed_iff (headerWith sampleList)).2 sampleList rfl).1
  exact ⟨fun call => (hclosed call).mpr (.inl hwhole), rfl, rfl⟩

def truncatedHeader : List Byte :=
  [2, 0, 24, 0, 0, 1, 0, 0, 1, 0, 0, 0, 4, 1, 0x1a, 0, 6, 0, 2, 0, 1, 0, 0, 0]

/-- The parser accepts it, and the filter lets any command through. -/
theorem truncated_list_allows_command :
    parseTbfHeader truncatedHeader 2 = .ok (.v2 (headerWith [1, 0])) ∧
      filterSyscall (.v2 (headerWith [1, 0])) (.command 5 0 0 0) = .ok () ∧
      ¬ Granted [1, 0] (.command 5 0 0 0) := by
  refine ⟨rfl, rfl, ?_⟩
  rintro ⟨perm, ⟨i, -, hperm⟩, -⟩
  have hsome := permissionAt_isSome_iff.mp (isSome_iff_exists.mpr ⟨perm, hperm⟩)
  simp at hsome

end TockKernel.Tbf

import TockKernel.Loading.ProcessBinary

/-!
# Discovery of process binaries in flash

The synchronous part of `kernel/src/process_loading.rs`: the entries of the
application flash are visited one after the other, and each of them says by its
own length where the next one starts.
-/

namespace TockKernel.Loading

open Tbf FlashSlice ProcessBinaryError Option

/-- Version, length of the header and length of the entry. Version 0 makes sure
that an entry with an invalid header is skipped by its length. -/
def entryLengths (header : List Byte) : Option (BitVec 16 × BitVec 16 × BitVec 32) :=
  match parseTbfHeaderLengths header with
  | .ok lengths => some lengths
  | .error (.invalidHeader appLength) => some (0, 0, appLength)
  | .error .unableToParse => none

variable (flash : FlashSlice)

/-- Returns the flash behind the entry, also if the entry is not a binary that
can be loaded. -/
def discoverProcessBinary :
    Except (FlashSlice × ProcessBinaryError) (FlashSlice × ProcessBinary) := do
  let some header := slice flash.bytes 0 8
    | throw (flash, .notEnoughFlash)
  let some (version, headerLength, appLength) := entryLengths header
    | throw (flash, .tbfHeaderNotFound)
  let some appFlash := flash.get 0 appLength.toNat
    | throw (flash, .notEnoughFlash)
  let some remainingFlash := flash.getFrom appFlash.length
    | throw (flash, .notEnoughFlash)
  match ProcessBinary.create appFlash headerLength.toNat version true with
  | .ok pb => return (remainingFlash, pb)
  | .error error => throw (remainingFlash, error)

def ProcessBinaryError.endsDiscovery : ProcessBinaryError → Bool
  | .notEnoughFlash | .tbfHeaderNotFound => true
  | _ => false

/-! ## Loading while discovering -/

/-- A process, the binary it was created from and the short identifier it was
given. -/
structure LoadedProcess (X : Type) where
  binary : ProcessBinary
  shortAppId : ShortId
  process : X
  deriving DecidableEq

abbrev ProcessTable (X : Type) : Type := List (Option (LoadedProcess X))

/-- `ProcessStandard::create`, as far as the loader sees it: the memory that is
left over comes back in any case. -/
abbrev Creator (M X : Type) : Type :=
  ProcessBinary → M → ShortId → ℕ → Except (M × ProcessLoadError) (M × Option X)

variable {M X : Type} (create : Creator M X)

def loadProcess (pb : ProcessBinary) (appMemory : M)
    (appId : ShortId) (index : ℕ) : Except (M × ProcessLoadError) (M × Option (LoadedProcess X)) :=
  match create pb appMemory appId index with
  | .ok (unusedMemory, process) =>
    .ok (unusedMemory, process.map fun x => ⟨pb, appId, x⟩)
  | .error error => .error error

/-- The loop of `load_processes_from_flash`, cut off after a number of
iterations. -/
def loadProcessesFromFlash (create : Creator M X) :
    ℕ → FlashSlice → M → ProcessTable X → ℕ →
      Option (ProcessTable X)
  | 0, _, _, _, _ => none
  | fuel + 1, flash, memory, procs, index =>
    if index < procs.length then
      match discoverProcessBinary flash with
      | .ok (newFlash, pb) =>
        match loadProcess create pb memory .locallyUnique index with
        | .ok (newMemory, some process) =>
          loadProcessesFromFlash create fuel newFlash newMemory
            (procs.set index (some process)) (index + 1)
        | .ok (newMemory, none) =>
          loadProcessesFromFlash create fuel newFlash newMemory procs index
        | .error (newMemory, _) =>
          loadProcessesFromFlash create fuel newFlash newMemory procs index
      | .error (newFlash, error) =>
        if error.endsDiscovery then
          some procs
        else
          loadProcessesFromFlash create fuel newFlash memory procs index
    else
      some procs

/-! ## The walk over the entries -/

def nextEntry : Option FlashSlice :=
  match discoverProcessBinary flash with
  | .ok (rest, _) => some rest
  | .error (rest, error) => if error.endsDiscovery then none else some rest

def walk : ℕ → FlashSlice → Option FlashSlice
  | 0, flash => some flash
  | n + 1, flash => (nextEntry flash).bind (walk n)

/-- The header has the right version and an invalid length, and the length of
the entry is 0. -/
def EmptyEntry : Prop :=
  ∃ header, slice flash.bytes 0 8 = some header ∧
    parseTbfHeaderLengths header = .error (.invalidHeader 0)

def Reaches (flash rest : FlashSlice) : Prop :=
  Relation.ReflTransGen (fun f g => nextEntry f = some g) flash rest

def NoEmptyEntry : Prop :=
  ∀ rest, Reaches flash rest → ¬ EmptyEntry rest

variable {flash rest : FlashSlice} {n : ℕ}

theorem FlashSlice.length_of_get {part : FlashSlice} {start stop : ℕ}
    (h : flash.get start stop = some part) : stop ≤ flash.length ∧ part.length = stop - start := by
  obtain ⟨_, hbytes, rfl⟩ := map_eq_some_iff.mp h
  exact (slice_eq_some hbytes).2

theorem FlashSlice.length_of_getFrom {part : FlashSlice} {start : ℕ}
    (h : flash.getFrom start = some part) : part.length = flash.length - start := by
  obtain ⟨_, hbytes, rfl⟩ := map_eq_some_iff.mp h
  obtain ⟨-, rfl⟩ := sliceFrom_eq_some hbytes
  exact List.length_drop

theorem appLength_pos {header : List Byte} {version headerLength : BitVec 16}
    {appLength : BitVec 32}
    (h : parseTbfHeaderLengths header = .ok (version, headerLength, appLength)) :
    0 < appLength.toNat := by
  obtain ⟨_, -, h⟩ := Arithmetic.of_bind_ok h
  split at h
  next =>
    obtain ⟨headerSize, -, h⟩ := Arithmetic.of_bind_ok h
    obtain ⟨_, -, h⟩ := Arithmetic.of_bind_ok h
    split at h
    next => cases h
    next hsizes =>
      cases h
      omega
  next => cases h

theorem entryLengths_of_zero {header : List Byte} {version headerLength : BitVec 16}
    {appLength : BitVec 32} (h : entryLengths header = some (version, headerLength, appLength))
    (hzero : appLength.toNat = 0) : parseTbfHeaderLengths header = .error (.invalidHeader 0) := by
  unfold entryLengths at h
  split at h
  next lengths hparse =>
    obtain rfl := some.inj h
    exact absurd hzero (appLength_pos hparse).ne'
  next size hparse =>
    cases h
    obtain rfl : appLength = 0 := BitVec.eq_of_toNat_eq hzero
    exact hparse
  next => cases h

theorem nextEntry_eq_some (h : nextEntry flash = some rest) :
    ∃ header version headerLength appLength, slice flash.bytes 0 8 = some header ∧
      entryLengths header = some (version, headerLength, appLength) ∧
      appLength.toNat ≤ flash.length ∧ rest.length = flash.length - appLength.toNat := by
  unfold nextEntry discoverProcessBinary at h
  cases hheader : slice flash.bytes 0 8 with
  | none =>
    simp only [hheader] at h
    cases h
  | some header =>
    cases hlengths : entryLengths header with
    | none =>
      simp only [hheader, hlengths] at h
      cases h
    | some lengths =>
      obtain ⟨version, headerLength, appLength⟩ := lengths
      refine ⟨header, version, headerLength, appLength, rfl, hlengths, ?_⟩
      cases happ : flash.get 0 appLength.toNat with
      | none =>
        simp only [hheader, hlengths, happ] at h
        cases h
      | some appFlash =>
        obtain ⟨hle, hlen⟩ := length_of_get happ
        refine ⟨hle, ?_⟩
        cases hrest : flash.getFrom appFlash.length with
        | none =>
          simp only [hheader, hlengths, happ, hrest] at h
          cases h
        | some rest' =>
          have hsame : rest' = rest := by
            simp only [hheader, hlengths, happ, hrest] at h
            split at h
            next hcreate =>
              split at hcreate <;> cases hcreate
              exact some.inj h
            next hcreate =>
            split at hcreate <;> cases hcreate
            split at h
            next => cases h
            next => exact some.inj h
          rw [← hsame, length_of_getFrom hrest, hlen, Nat.sub_zero]

theorem FlashSlice.get_zero (flash : FlashSlice) : flash.get 0 0 = some ⟨flash.address, []⟩ := by
  simp [get, slice]

theorem FlashSlice.getFrom_zero (flash : FlashSlice) : flash.getFrom 0 = some flash := by
  simp [getFrom, sliceFrom]

theorem discoverProcessBinary_of_emptyEntry (h : EmptyEntry flash) : discoverProcessBinary flash =
      .error (flash, .tbfHeaderParseFailure (.unsupportedVersion 0)) := by
  obtain ⟨header, hheader, hparse⟩ := h
  have hlengths : entryLengths header = some (0, 0, 0) := by
    simp [entryLengths, hparse]
  have hcreate : ProcessBinary.create ⟨flash.address, []⟩ 0 0#16 true =
      .error (.tbfHeaderParseFailure (.unsupportedVersion 0)) := rfl
  simp [discoverProcessBinary, hheader, hlengths, get_zero, length, getFrom_zero, hcreate]
  rfl

theorem nextEntry_of_emptyEntry (h : EmptyEntry flash) : nextEntry flash = some flash := by
  rw [nextEntry, discoverProcessBinary_of_emptyEntry h]
  rfl

theorem nextEntry_shortens (h : nextEntry flash = some rest) (hempty : ¬ EmptyEntry flash) :
    rest.length < flash.length := by
  obtain ⟨header, _, headerLength, appLength, hheader, hlengths, hle, hrest⟩ := nextEntry_eq_some h
  have hpos : appLength.toNat ≠ 0 := fun hzero =>
    hempty ⟨header, hheader, entryLengths_of_zero hlengths hzero⟩
  omega

theorem NoEmptyEntry.next (h : NoEmptyEntry flash)
    (hnext : nextEntry flash = some rest) : NoEmptyEntry rest :=
  fun last hlast => h last (.head hnext hlast)

theorem NoEmptyEntry.walk_eq_none (h : NoEmptyEntry flash)
    (hn : flash.length < n) : walk n flash = none := by
  induction n generalizing flash with
  | zero => exact absurd hn (Nat.not_lt_zero _)
  | succ n ih =>
    unfold walk
    cases hnext : nextEntry flash with
    | none => rfl
    | some rest =>
      have hshorter := nextEntry_shortens hnext (h flash .refl)
      exact ih (h.next hnext) (by omega)

theorem walk_ne_none (hreaches : Reaches flash rest) (hempty : EmptyEntry rest)
    (n : ℕ) : walk n flash ≠ none := by
  induction n generalizing flash with
  | zero => exact some_ne_none flash
  | succ n ih =>
    unfold walk
    obtain rfl | ⟨_, hnext, hrest⟩ := hreaches.cases_head
    · rw [nextEntry_of_emptyEntry hempty]
      exact ih .refl
    · rw [hnext]
      exact ih hrest

theorem walk_succ (n : ℕ) (flash : FlashSlice) :
    walk (n + 1) flash = (walk n flash).bind nextEntry := by
  induction n generalizing flash with
  | zero => simp [walk]
  | succ n ih =>
    rw [walk]
    cases hnext : nextEntry flash with
    | none => rw [walk, hnext]; rfl
    | some rest =>
      rw [walk, hnext]
      exact ih rest

/-- The walk over flash ends exactly where no entry it meets is empty. -/
theorem walk_ends_iff (flash : FlashSlice) : (∃ n, walk n flash = none) ↔ NoEmptyEntry flash :=
  ⟨fun ⟨n, hn⟩ _ hrest hempty => walk_ne_none hrest hempty n hn,
    fun h => ⟨flash.length + 1, h.walk_eq_none (Nat.lt_succ_self _)⟩⟩

theorem shortens_iff (flash : FlashSlice) :
    (∀ rest next, Reaches flash rest → nextEntry rest = some next →
        next.length < rest.length) ↔
      NoEmptyEntry flash := by
  constructor
  · intro h rest hrest hempty
    have := h rest rest hrest (nextEntry_of_emptyEntry hempty)
    omega
  · intro h rest next hrest hnext
    exact nextEntry_shortens hnext (h rest hrest)

/-! ## The synchronous loader -/

theorem loadProcessesFromFlash_succ (fuel : ℕ)
    (flash : FlashSlice) (memory : M) (procs : ProcessTable X) (index : ℕ) :
    (∃ result, loadProcessesFromFlash create (fuel + 1) flash memory procs index = some result) ∨
      ∃ rest memory' procs' index', nextEntry flash = some rest ∧
        loadProcessesFromFlash create (fuel + 1) flash memory procs index =
          loadProcessesFromFlash create fuel rest memory' procs' index' := by
  rw [loadProcessesFromFlash, nextEntry]
  split
  next =>
    split
    next rest pb hdiscover =>
      right
      split <;> exact ⟨_, _, _, _, rfl, rfl⟩
    split
    next => exact .inl ⟨_, rfl⟩
    next => exact .inr ⟨_, _, _, _, rfl, rfl⟩
  next => exact .inl ⟨_, rfl⟩

theorem loadProcessesFromFlash_returns (hend : walk n flash = none) (memory : M)
    (procs : ProcessTable X) (index : ℕ) : ∃ result,
      loadProcessesFromFlash create n flash memory procs index = some result := by
  induction n generalizing flash memory procs index with
  | zero => cases hend
  | succ n ih =>
    obtain hreturns | ⟨_, memory', procs', index', hnext, heq⟩ :=
      loadProcessesFromFlash_succ create n flash memory procs index
    · exact hreturns
    rw [walk, hnext] at hend
    rw [heq]
    exact ih hend memory' procs' index'

theorem walk_eq_none_of_returns {memory : M}
    {procs result : ProcessTable X} (hslot : 0 < procs.length)
    (h : loadProcessesFromFlash (fun _ memory _ _ => .ok (memory, none)) n flash
      memory procs 0 = some result) :
    walk n flash = none := by
  induction n generalizing flash with
  | zero => cases h
  | succ n ih =>
    rw [loadProcessesFromFlash, if_pos hslot] at h
    rw [walk, nextEntry]
    split
    next rest pb hdiscover =>
      rw [hdiscover] at h
      exact ih h
    next rest error hdiscover =>
    rw [hdiscover] at h
    split
    next => rfl
    next hgoes =>
      simp only [hgoes] at h
      exact ih h

theorem loadProcessesFromFlash_of_emptyEntry (hempty : EmptyEntry flash) (memory : M)
    {procs : ProcessTable X} {index : ℕ} (hslot : index < procs.length) (fuel : ℕ) :
    loadProcessesFromFlash create fuel flash memory procs index = none := by
  induction fuel with
  | zero => rfl
  | succ fuel ih =>
    rw [loadProcessesFromFlash, if_pos hslot, discoverProcessBinary_of_emptyEntry hempty]
    exact ih

end TockKernel.Loading

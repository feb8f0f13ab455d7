import TockKernel.GrantEntry

/-!
# The memory of a grant

The arrays of a grant are found by counting up from its base, the data by
counting down from its end. These parts lie apart and aligned within the grant,
and later accesses find them where they were when the grant was initialised.
-/

namespace TockKernel

open ByteMemory KernelManagedLayout GrantDecl GrantExecution BitVec
open BitVec (le_def ofNat toNat)

/-! ## The layout of a grant -/

namespace GrantDecl

variable (decl : GrantDecl)

def number : SavedKind → ℕ
  | .upcall => decl.upcalls.toNat
  | .allowRo => decl.allowRos.toNat
  | .allowRw => decl.allowRws.toNat

def firstEntry : SavedKind → ℕ
  | .upcall => 0
  | .allowRo => decl.upcalls.toNat
  | .allowRw => decl.upcalls.toNat + decl.allowRos.toNat

theorem firstEntry_add_lt {kind : SavedKind} {num : ℕ} (hnum : num < decl.number kind) :
    decl.firstEntry kind + num < decl.entries := by
  cases kind <;> simp only [number, firstEntry, entries] at * <;> omega

theorem firstEntry_add_injective {kind kind' : SavedKind} {num num' : ℕ}
    (hnum : num < decl.number kind) (hnum' : num' < decl.number kind')
    (heq : decl.firstEntry kind + num = decl.firstEntry kind' + num') :
    kind = kind' ∧ num = num' := by
  cases kind <;> cases kind' <;> simp only [number, firstEntry] at * <;>
    first | exact ⟨trivial, by omega⟩ | omega

theorem toNat_counter : decl.counter.toNat = decl.upcalls.toNat +
    2 ^ 8 * decl.allowRos.toNat + 2 ^ 16 * decl.allowRws.toNat := by
  have happend : ∀ {v w : ℕ} (x : BitVec v) (y : BitVec w),
      (x ++ y).toNat = x.toNat * 2 ^ w + y.toNat := by
    intro v w x y
    rw [toNat_append, ← Nat.shiftLeft_add_eq_or_of_lt y.isLt, Nat.shiftLeft_eq]
  unfold counter
  rw [happend, happend, happend]
  simp only [toNat_ofNat]
  omega

end GrantDecl

theorem toNat_byte (x : Usize) (offset : ℕ) :
    (x >>> offset &&& 0xFF).toNat = x.toNat / 2 ^ offset % 2 ^ 8 := by
  rw [toNat_and, toNat_ushiftRight, Nat.shiftRight_eq_div_pow]
  exact Nat.and_two_pow_sub_one_eq_mod _ 8

theorem GrantDecl.toNat_counter_bytes (decl : GrantDecl) :
    (decl.counter &&& 0xFF).toNat = decl.upcalls.toNat ∧
      (decl.counter >>> 8 &&& 0xFF).toNat = decl.allowRos.toNat := by
  have htoNat := decl.toNat_counter
  have hbyte := toNat_byte decl.counter 0
  rw [ushiftRight_zero] at hbyte
  rw [toNat_byte]
  omega

theorem toNat_add_mul_eight (base count : Usize) (hfits : base.toNat + 8 * count.toNat < 2 ^ 32) :
    (base + count * 8).toNat = base.toNat + 8 * count.toNat := by
  have hmul : (count * 8).toNat = 8 * count.toNat := by
    rw [BitVec.toNat_mul, show toNat (8 : Usize) = 8 from rfl,
      Nat.mul_comm, Nat.mod_eq_of_lt (by omega)]
  rw [BitVec.toNat_add, hmul, Nat.mod_eq_of_lt hfits]

namespace KernelManagedLayout

variable {memory : Memory 32} {base : Usize} {decl : GrantDecl} (grantNum : Usize)

theorem toNat_number (hcounter : readWord memory base = decl.counter) (kind : SavedKind) :
    ((readFromBase memory base grantNum).number memory kind).toNat = decl.number kind := by
  have htoNat := decl.toNat_counter
  cases kind <;>
    simp only [number, getCounterOffset, readFromBase, hcounter, toNat_byte, GrantDecl.number] <;>
    omega

theorem toNat_slot (hcounter : readWord memory base = decl.counter)
    (hfits : base.toNat + decl.kernelManagedSize.toNat ≤ 2 ^ 32)
    {kind : SavedKind} {num : Usize} (hnum : num.toNat < decl.number kind) :
    ((readFromBase memory base grantNum).slot kind num).toNat =
      base.toNat + (4 + 8 * (decl.firstEntry kind + num.toNat)) := by
  have hentry := decl.firstEntry_add_lt hnum
  rw [decl.toNat_kernelManagedSize] at hfits
  obtain ⟨hupcalls, hros⟩ := decl.toNat_counter_bytes
  -- The arrays follow each other, so each starts where the last one ends.
  have hfirst : (base + 4).toNat = base.toNat + 4 := toNat_add_ofNat base (i := 4) (by omega)
  cases kind with
  | upcall =>
    simp only [slot, array, readFromBase, firstEntry] at hentry ⊢
    rw [toNat_add_mul_eight _ _ (by omega)]
    omega
  | allowRo =>
    simp only [slot, array, readFromBase, firstEntry, hcounter] at hentry ⊢
    have hsecond := toNat_add_mul_eight (base + 4) (decl.counter &&& 0xFF) (by omega)
    rw [toNat_add_mul_eight _ _ (by omega)]
    omega
  | allowRw =>
    simp only [slot, array, readFromBase, firstEntry, hcounter] at hentry ⊢
    have hsecond := toNat_add_mul_eight (base + 4) (decl.counter &&& 0xFF) (by omega)
    have hthird := toNat_add_mul_eight (base + 4 + (decl.counter &&& 0xFF) * 8)
      (decl.counter >>> 8 &&& 0xFF) (by omega)
    rw [toNat_add_mul_eight _ _ (by omega)]
    omega

end KernelManagedLayout

/-! ## New grants -/

theorem toNat_entry (base : Usize) {i : ℕ} (hfits : base.toNat + 8 * i < 2 ^ 32) :
    (base + ofNat 32 i * 8).toNat = base.toNat + 8 * i := by
  have hcount : (ofNat 32 i).toNat = i := by
    rw [BitVec.toNat_ofNat, Nat.mod_eq_of_lt (by omega)]
  rw [toNat_add_mul_eight _ _ (by rw [hcount]; exact hfits), hcount]

namespace KernelManagedLayout

variable {memory : Memory 32} {base : Usize} {decl : GrantDecl}

theorem agreeOn_writeDefaultArray (memory : Memory 32) (base : Usize) (num : ℕ) {low high : ℕ}
    (hfits : base.toNat + 8 * num ≤ 2 ^ 32)
    (happart : high ≤ base.toNat ∨ base.toNat + 8 * num ≤ low) :
    AgreeOn memory (writeDefaultArray memory base num) low high := by
  induction num with
  | zero => exact .refl _ _ _
  | succ num ih =>
    have haddr := toNat_entry base (i := num) (by omega)
    exact (ih (by omega) (by omega)).trans (agreeOn_writePair _ _ _ (by omega) (by omega))

theorem readPair_writeDefaultArray {num i : ℕ} (hi : i < num)
    (hfits : base.toNat + 8 * num ≤ 2 ^ 32) {x : Usize} (hx : x.toNat = base.toNat + 8 * i) :
    readPair (writeDefaultArray memory base num) x = (0, 0) := by
  induction num with
  | zero => omega
  | succ num ih =>
    have haddr := toNat_entry base (i := num) (by omega)
    rcases Nat.lt_succ_iff_lt_or_eq.mp hi with hlt | rfl
    · have hagree : AgreeOn (writeDefaultArray memory base num)
          (writeDefaultArray memory base (num + 1)) x.toNat (x.toNat + 8) :=
        agreeOn_writePair _ _ _ (by omega) (by omega)
      rw [hagree.readPair_eq le_rfl le_rfl (by omega), ih hlt (by omega)]
    obtain rfl : x = base + ofNat 32 i * 8 := BitVec.eq_of_toNat_eq (hx.trans haddr.symm)
    exact readPair_writePair _ _ _ (by omega)

theorem toNat_arrays (hfits : base.toNat + decl.kernelManagedSize.toNat < 2 ^ 32) :
    (base + 4).toNat = base.toNat + 4 ∧ (base + 4 + decl.upcalls.setWidth 32 * 8).toNat =
        base.toNat + 4 + 8 * decl.upcalls.toNat ∧ (base + 4 + decl.upcalls.setWidth 32 * 8 +
        decl.allowRos.setWidth 32 * 8).toNat =
        base.toNat + 4 + 8 * decl.upcalls.toNat + 8 * decl.allowRos.toNat := by
  have hwidth : ∀ x : BitVec 8, (x.setWidth 32).toNat = x.toNat := fun x =>
    toNat_setWidth_of_le (by decide)
  rw [decl.toNat_kernelManagedSize, entries] at hfits
  have hfirst : (base + 4).toNat = base.toNat + 4 := toNat_add_ofNat base (i := 4) (by omega)
  have hsecond := toNat_add_mul_eight (base + 4) (decl.upcalls.setWidth 32) (by rw [hwidth]; omega)
  have hthird := toNat_add_mul_eight
    (base + 4 + decl.upcalls.setWidth 32 * 8) (decl.allowRos.setWidth 32)
  rw [hwidth] at hsecond hthird
  omega

theorem initializeFromCounts_stages (memory : Memory 32) (base : Usize)
    (decl : GrantDecl) : ∃ m1 m2 m3, m1 = writeWord memory base decl.counter ∧
      m2 = writeDefaultArray m1 (base + 4) decl.upcalls.toNat ∧
      m3 = writeDefaultArray m2 (base + 4 + decl.upcalls.setWidth 32 * 8) decl.allowRos.toNat ∧
      initializeFromCounts memory base decl = writeDefaultArray m3
        (base + 4 + decl.upcalls.setWidth 32 * 8 +
          decl.allowRos.setWidth 32 * 8) decl.allowRws.toNat :=
  ⟨_, _, _, rfl, rfl, rfl, rfl⟩

section

variable (memory : Memory 32) (hfits : base.toNat + decl.kernelManagedSize.toNat < 2 ^ 32)
include hfits

theorem agreeOn_initializeFromCounts
    {low high : ℕ} (happart : high ≤ base.toNat ∨ base.toNat + decl.kernelManagedSize.toNat ≤ low) :
    AgreeOn memory (initializeFromCounts memory base decl) low high := by
  obtain ⟨hupcalls, hros, hrws⟩ := toNat_arrays hfits
  rw [decl.toNat_kernelManagedSize, entries] at hfits happart
  refine (agreeOn_writeWord memory base decl.counter (by omega) (by omega)).trans ?_
  refine (agreeOn_writeDefaultArray _ (base + 4) decl.upcalls.toNat (by omega) (by omega)).trans ?_
  refine (agreeOn_writeDefaultArray _ _ decl.allowRos.toNat ?_ ?_).trans
    (agreeOn_writeDefaultArray _ _ decl.allowRws.toNat ?_ ?_)
  all_goals omega

theorem readWord_initializeFromCounts :
    readWord (initializeFromCounts memory base decl) base = decl.counter := by
  obtain ⟨hupcalls, hros, hrws⟩ := toNat_arrays hfits
  rw [decl.toNat_kernelManagedSize, entries] at hfits
  have hagree : AgreeOn (writeWord memory base decl.counter)
      (initializeFromCounts memory base decl) base.toNat (base.toNat + 4) := by
    refine (agreeOn_writeDefaultArray _ (base + 4) decl.upcalls.toNat
      (by omega) (by omega)).trans ?_
    refine (agreeOn_writeDefaultArray _ _ decl.allowRos.toNat ?_ ?_).trans
      (agreeOn_writeDefaultArray _ _ decl.allowRws.toNat ?_ ?_)
    all_goals omega
  rw [hagree.readWord_eq le_rfl le_rfl (by omega)]
  exact readWord_writeWord memory base decl.counter (by omega)

theorem readPair_initializeFromCounts
    (hi : i < decl.entries) {x : Usize} (hx : x.toNat = base.toNat + (4 + 8 * i)) :
    readPair (initializeFromCounts memory base decl) x = (0, 0) := by
  obtain ⟨hupcalls, hros, hrws⟩ := toNat_arrays hfits
  rw [decl.toNat_kernelManagedSize] at hfits
  rw [entries] at hi hfits
  obtain ⟨_, m2, m3, -, hm2, hm3, hstages⟩ := initializeFromCounts_stages memory base decl
  rw [hstages]
  by_cases hthird : decl.upcalls.toNat + decl.allowRos.toNat ≤ i
  · exact readPair_writeDefaultArray
      (i := i - decl.upcalls.toNat - decl.allowRos.toNat) (by omega) (by omega) (by omega)
  -- The last array lies above the entry.
  have hlast : AgreeOn m3 (writeDefaultArray m3 (base + 4 +
      decl.upcalls.setWidth 32 * 8 + decl.allowRos.setWidth 32 * 8)
      decl.allowRws.toNat) x.toNat (x.toNat + 8) :=
    agreeOn_writeDefaultArray _ _ _ (by omega) (by omega)
  rw [hlast.readPair_eq le_rfl le_rfl (by omega), hm3]
  by_cases hsecond : decl.upcalls.toNat ≤ i
  · exact readPair_writeDefaultArray (i := i - decl.upcalls.toNat) (by omega) (by omega) (by omega)
  have hmiddle : AgreeOn m2 (writeDefaultArray m2 (base + 4 +
      decl.upcalls.setWidth 32 * 8) decl.allowRos.toNat) x.toNat (x.toNat + 8) :=
    agreeOn_writeDefaultArray _ _ _ (by omega) (by omega)
  rw [hmiddle.readPair_eq le_rfl le_rfl (by omega), hm2]
  exact readPair_writeDefaultArray (i := i) (by omega) (by omega) (by omega)

end

end KernelManagedLayout

namespace GrantDecl

variable (decl : GrantDecl)

theorem grantTAlign_dvd_sub :
    decl.grantTAlign.toNat ∣ decl.grantSize.toNat - decl.grantTSize.toNat := by
  obtain ⟨k, hk, halign⟩ := decl.grantTAlign_eq
  have hpow : 2 ^ k ≤ 2 ^ 29 := Nat.pow_le_pow_right (by decide) hk
  have hone : 1 ≤ 2 ^ k := Nat.one_le_two_pow
  have hentries := decl.entries_le
  have hmanaged := decl.toNat_kernelManagedSize
  have hsize := decl.grantTSize_lt
  have hmask : (decl.grantTAlign - 1).toNat = 2 ^ k - 1 :=
    (Word.toNat_sub_one (halign ▸ hone)).trans (by rw [halign])
  let remainder := decl.kernelManagedSize &&& (decl.grantTAlign - 1)
  have hremainder : remainder.toNat = decl.kernelManagedSize.toNat % 2 ^ k := by
    rw [toNat_and, hmask, Nat.and_two_pow_sub_one_eq_mod]
  have hmissing : (decl.grantTAlign - remainder).toNat =
      2 ^ k - decl.kernelManagedSize.toNat % 2 ^ k := by
    rw [toNat_sub_of_le (by rw [le_def]; omega), halign, hremainder]
  have hpadding : ((decl.grantTAlign - remainder) &&& (decl.grantTAlign - 1)).toNat =
      (2 ^ k - decl.kernelManagedSize.toNat % 2 ^ k) % 2 ^ k := by
    rw [toNat_and, hmask, Nat.and_two_pow_sub_one_eq_mod, hmissing]
  have htotal : decl.grantSize.toNat = decl.kernelManagedSize.toNat +
      (2 ^ k - decl.kernelManagedSize.toNat % 2 ^ k) % 2 ^ k + decl.grantTSize.toNat := by
    have hsum : decl.grantSize = decl.kernelManagedSize +
        ((decl.grantTAlign - remainder) &&& (decl.grantTAlign - 1)) + decl.grantTSize := rfl
    rw [hsum, toNat_add, toNat_add, Nat.mod_add_mod, hpadding, Nat.mod_eq_of_lt (by omega)]
  have hdivided := Nat.mod_add_div decl.kernelManagedSize.toNat (2 ^ k)
  rw [htotal, Nat.add_sub_cancel, halign]
  apply Nat.dvd_of_mod_eq_zero
  rw [Nat.add_mod_mod]
  calc (decl.kernelManagedSize.toNat + (2 ^ k - decl.kernelManagedSize.toNat % 2 ^ k)) % 2 ^ k
      = (2 ^ k * (decl.kernelManagedSize.toNat / 2 ^ k) + 2 ^ k) % 2 ^ k := by
        congr 1
        omega
    _ = 0 := by
        rw [Nat.add_mod_right, Nat.mul_mod_right]

end GrantDecl

/-! ## The parts of a grant -/

inductive GrantPart where
  | counters
  | saved (kind : SavedKind)
  | data
  deriving DecidableEq, Repr

namespace GrantPart

variable (decl : GrantDecl)

def address (layout : KernelManagedLayout) : GrantPart → Usize
  | .counters => layout.countersPtr
  | .saved kind => layout.array kind
  | .data => decl.offsetOfGrantDataT layout.countersPtr

def size : GrantPart → ℕ
  | .counters => 4
  | .saved kind => 8 * decl.number kind
  | .data => decl.grantTSize.toNat

def align : GrantPart → ℕ
  | .counters | .saved _ => 4
  | .data => decl.grantTAlign.toNat

def offset (layout : KernelManagedLayout) (part : GrantPart) : ℕ :=
  (part.address decl layout - layout.countersPtr).toNat

def position : GrantPart → ℕ
  | .counters => 0
  | .saved kind => 4 + 8 * decl.firstEntry kind
  | .data => decl.grantSize.toNat - decl.grantTSize.toNat

variable {decl : GrantDecl}

theorem address_eq (decl : GrantDecl) (base grantNum : Usize) (part : GrantPart) :
    part.address decl (.fromCounts base grantNum decl) =
      base + part.address decl (.fromCounts 0 grantNum decl) := by
  cases part with
  | counters => simp [address, fromCounts]
  | data =>
    simp [address, fromCounts, offsetOfGrantDataT]
  | saved kind =>
    cases kind <;>
      simp [address, fromCounts, array, BitVec.add_assoc]

theorem toNat_address_zero (decl : GrantDecl) (grantNum : Usize) (part : GrantPart) :
    (part.address decl (.fromCounts 0 grantNum decl)).toNat = part.position decl := by
  have hmanaged := decl.managed_add_data_le
  have hzero : (0 : Usize).toNat = 0 := rfl
  have hfits : (0 : Usize).toNat + decl.kernelManagedSize.toNat < 2 ^ 32 := by
    omega
  obtain ⟨hupcalls, hros, hrws⟩ := toNat_arrays hfits
  cases part with
  | counters => rfl
  | data =>
    have hle : decl.grantTSize ≤ decl.grantSize := by
      rw [le_def]
      omega
    exact (congrArg toNat (BitVec.zero_add _)).trans (BitVec.toNat_sub_of_le hle)
  | saved kind =>
    cases kind with
    | upcall => exact hupcalls
    | allowRo =>
      refine hros.trans ?_
      simp [position, firstEntry]
    | allowRw =>
      refine hrws.trans ?_
      simp only [position, firstEntry]
      omega

theorem offset_eq (decl : GrantDecl) (base grantNum : Usize) (part : GrantPart) :
    part.offset decl (.fromCounts base grantNum decl) = part.position decl := by
  rw [offset, address_eq]
  have hbase : (fromCounts base grantNum decl).countersPtr = base := rfl
  rw [hbase, BitVec.add_comm, BitVec.add_sub_cancel, toNat_address_zero]

theorem position_add_size_le (decl : GrantDecl) (part : GrantPart) :
    part.position decl + part.size decl ≤ decl.grantSize.toNat := by
  have hmanaged := decl.managed_add_data_le
  have hsize := decl.toNat_kernelManagedSize
  rw [GrantDecl.entries] at hsize
  cases part with
  | counters | data =>
    simp only [position, size]
    omega
  | saved kind =>
    cases kind <;>
      simp only [position, size, GrantDecl.firstEntry, GrantDecl.number] <;>
      omega

theorem position_disjoint (decl : GrantDecl) {part part' : GrantPart} (hne : part ≠ part') :
    part.position decl + part.size decl ≤ part'.position decl ∨
      part'.position decl + part'.size decl ≤ part.position decl := by
  have hmanaged := decl.managed_add_data_le
  have hsize := decl.toNat_kernelManagedSize
  rw [GrantDecl.entries] at hsize
  rcases part with _ | (_ | _ | _) | _ <;> rcases part' with _ | (_ | _ | _) | _ <;> first
    | exact absurd rfl hne
    | (simp only [position, size, GrantDecl.firstEntry, GrantDecl.number]; omega)

theorem align_dvd_position (decl : GrantDecl) (part : GrantPart) :
    part.align decl ∣ part.position decl := by
  cases part with
  | counters => exact dvd_zero _
  | data => exact decl.grantTAlign_dvd_sub
  | saved kind =>
    simp only [align, position]
    omega

theorem align_dvd_grantAlign (decl : GrantDecl) (part : GrantPart) :
    part.align decl ∣ decl.grantAlign.toNat := by
  obtain ⟨k, -, halign⟩ := decl.grantTAlign_eq
  obtain ⟨j, hj, -, hgrant⟩ := decl.toNat_grantAlign
  cases part with
  | counters | saved => exact hgrant ▸ Nat.pow_dvd_pow 2 hj
  | data =>
    have hle : decl.grantTAlign.toNat ≤ decl.grantAlign.toNat := by
      rw [grantAlign, toNat_cmpMax]
      exact le_max_right _ _
    rw [halign, hgrant] at hle
    simp only [align, halign, hgrant]
    exact Nat.pow_dvd_pow 2 ((Nat.pow_le_pow_iff_right (by decide)).mp hle)

theorem align_dvd_address (decl : GrantDecl) {base : Usize}
    (hbase : decl.grantAlign.toNat ∣ base.toNat) (grantNum : Usize) (part : GrantPart) :
    part.align decl ∣ (part.address decl (.fromCounts base grantNum decl)).toNat := by
  obtain ⟨j, -, hj, hgrant⟩ := decl.toNat_grantAlign
  have hspace : decl.grantAlign.toNat ∣ 2 ^ 32 := hgrant ▸ Nat.pow_dvd_pow 2 (hj.trans (by decide))
  have hgrantAlign := part.align_dvd_grantAlign decl
  rw [address_eq, toNat_add, toNat_address_zero]
  exact (Nat.dvd_mod_iff (hgrantAlign.trans hspace)).mpr
    ((hgrantAlign.trans hbase).add (part.align_dvd_position decl))

end GrantPart

/-! ## Reading the layout back

Addresses are computed without regard to the end of the address space, so all
of this is the same for every base. It is proved for base zero, on memory as
it is seen from the base.
-/

def seenFrom (base : Usize) (memory : Memory 32) : Memory 32 :=
  fun x => memory (base + x)

section SeenFrom

variable (base : Usize) (memory : Memory 32)

theorem readWord_seenFrom (a : Usize) :
    readWord (seenFrom base memory) a = readWord memory (base + a) := by
  simp [readWord, seenFrom, BitVec.add_assoc]

theorem seenFrom_writeWord (a : Usize) (v : BitVec 32) :
    seenFrom base (writeWord memory (base + a) v) = writeWord (seenFrom base memory) a v := by
  funext x
  have hdistance : base + x - (base + a) = x - a := by bv_omega
  simp [seenFrom, writeWord, hdistance]

theorem seenFrom_writePair (a : Usize) (v : BitVec 32 × BitVec 32) :
    seenFrom base (writePair memory (base + a) v) = writePair (seenFrom base memory) a v := by
  simp only [writePair]
  rw [BitVec.add_assoc, seenFrom_writeWord, seenFrom_writeWord]

theorem seenFrom_writeBytes (a size : Usize) (bytes : Usize → BitVec 8) :
    seenFrom base (writeBytes memory (base + a) size bytes) =
      writeBytes (seenFrom base memory) a size bytes := by
  funext x
  have hdistance : base + x - (base + a) = x - a := by bv_omega
  simp [seenFrom, writeBytes, hdistance]

theorem seenFrom_writeDefaultArray (a : Usize) (num : ℕ) : seenFrom base
        (writeDefaultArray memory (base + a) num) =
      writeDefaultArray (seenFrom base memory) a num := by
  induction num with
  | zero => rfl
  | succ num ih =>
    simp only [writeDefaultArray]
    rw [BitVec.add_assoc, seenFrom_writePair, ih]

theorem seenFrom_initializeFromCounts (decl : GrantDecl) : seenFrom base
        (initializeFromCounts memory base decl) = initializeFromCounts (seenFrom base memory) 0
        decl := by
  have hbase : base = base + 0#32 := (BitVec.add_zero base).symm
  simp only [initializeFromCounts]
  rw [BitVec.add_assoc, BitVec.add_assoc, seenFrom_writeDefaultArray,
    seenFrom_writeDefaultArray, seenFrom_writeDefaultArray]
  nth_rewrite 2 [hbase]
  rw [seenFrom_writeWord]
  rfl

end SeenFrom

namespace KernelManagedLayout

variable {memory : Memory 32} {base : Usize} {decl : GrantDecl}

theorem readFromBase_eq_fromCounts
    (hcounter : readWord memory base = decl.counter) (grantNum : Usize) :
    readFromBase memory base grantNum = fromCounts base grantNum decl := by
  have hwidth : ∀ x : BitVec 8, (x.setWidth 32).toNat = x.toNat := fun x =>
    toNat_setWidth_of_le (by decide)
  obtain ⟨hupcalls, hros⟩ := decl.toNat_counter_bytes
  have hfirst : decl.counter &&& 0xFF = decl.upcalls.setWidth 32 :=
    eq_of_toNat_eq (hupcalls.trans (hwidth _).symm)
  have hsecond : decl.counter >>> 8 &&& 0xFF = decl.allowRos.setWidth 32 :=
    eq_of_toNat_eq (hros.trans (hwidth _).symm)
  simp only [readFromBase, fromCounts, hcounter, hfirst, hsecond]

theorem readWord_base (memory : Memory 32) (base : Usize) :
    readWord memory base = readWord (seenFrom base memory) 0 := by
  rw [readWord_seenFrom]
  exact congrArg (readWord memory) (BitVec.add_zero base).symm

theorem zero_add_kernelManagedSize_lt (decl : GrantDecl) :
    (0 : Usize).toNat + decl.kernelManagedSize.toNat < 2 ^ 32 := by
  have hzero : (0 : Usize).toNat = 0 := rfl
  omega

theorem readWord_initialized (memory : Memory 32) (base : Usize) (decl : GrantDecl) :
    readWord (initializeFromCounts memory base decl) base = decl.counter := by
  rw [readWord_base, seenFrom_initializeFromCounts]
  exact readWord_initializeFromCounts _ (zero_add_kernelManagedSize_lt decl)

end KernelManagedLayout

/-- What is written to a grant after it has been initialised: an entry of one
of the arrays is exchanged, or the capsule stores to its data. -/
inductive GrantWrite where
  | entry (kind : SavedKind) (num : Usize) (value : Usize × Usize)
  | data (bytes : Usize → BitVec 8)

namespace GrantWrite

variable {decl : GrantDecl} {base : Usize} {memory : Memory 32}

def apply (decl : GrantDecl) (base : Usize) (memory : Memory 32) : GrantWrite → Memory 32
  | .entry kind num value =>
    let layout := KernelManagedLayout.readFromBase memory base 0
    if num < layout.number memory kind then
      writePair memory (layout.slot kind num) value
    else
      memory
  | .data bytes =>
    writeBytes memory (decl.offsetOfGrantDataT base) decl.grantTSize bytes

theorem toNat_entry_offset {kind : SavedKind} {num : Usize} (hnum : num.toNat < decl.number kind) :
    ((fromCounts 0 0 decl).slot kind num).toNat = 4 + 8 * (decl.firstEntry kind + num.toNat) := by
  have harray : ((fromCounts 0 0 decl).array kind).toNat = 4 + 8 * decl.firstEntry kind :=
    GrantPart.toNat_address_zero decl 0 (.saved kind)
  have hentry := decl.firstEntry_add_lt hnum
  have hentries := decl.entries_le
  rw [slot, toNat_add_mul_eight _ _ (by omega)]
  omega

theorem counters_apply (hcounter : readWord memory base = decl.counter) (write : GrantWrite) :
    readWord (write.apply decl base memory) base = decl.counter := by
  have hzero : (0 : Usize).toNat = 0 := rfl
  have hseen := hcounter
  rw [readWord_base] at hseen ⊢
  cases write with
  | entry kind num value =>
    have hlayout := readFromBase_eq_fromCounts hcounter 0
    have hnumber := toNat_number 0 hcounter kind
    simp only [apply]
    split_ifs with hnum
    · rw [BitVec.lt_def, hnumber] at hnum
      have haddr : (readFromBase memory base 0).slot kind num = base +
            (fromCounts 0 0 decl).slot kind num := by
        have harray := GrantPart.address_eq decl base 0 (.saved kind)
        simp only [GrantPart.address] at harray
        rw [hlayout, slot, slot, harray, BitVec.add_assoc]
      have hoffset := toNat_entry_offset hnum
      have hentry := decl.firstEntry_add_lt hnum
      have hentries := decl.entries_le
      rw [haddr, seenFrom_writePair]
      have hagree : AgreeOn (seenFrom base memory) (writePair (seenFrom base memory)
            ((fromCounts 0 0 decl).slot kind num) value) 0 4 :=
        agreeOn_writePair _ _ _ (by omega) (by omega)
      exact (hagree.readWord_eq (by omega) (by omega) (by omega)).trans hseen
    · exact hseen
  | data bytes =>
    simp only [apply, offsetOfGrantDataT]
    have hmanaged := decl.managed_add_data_le
    have hsize := decl.toNat_kernelManagedSize
    have hle : decl.grantTSize ≤ decl.grantSize := by
      rw [le_def]
      omega
    have hoffset := BitVec.toNat_sub_of_le hle
    rw [seenFrom_writeBytes]
    have hagree : AgreeOn (seenFrom base memory) (writeBytes (seenFrom base memory)
          (decl.grantSize - decl.grantTSize) decl.grantTSize bytes) 0 4 :=
      agreeOn_writeBytes _ _ _ _ (by omega) (by omega)
    exact (hagree.readWord_eq (by omega) (by omega) (by omega)).trans hseen

theorem counters_foldl_apply (hcounter : readWord memory base = decl.counter)
    (writes : List GrantWrite) :
    readWord (writes.foldl (apply decl base) memory) base = decl.counter := by
  induction writes generalizing memory with
  | nil => exact hcounter
  | cons write writes ih => exact ih (counters_apply hcounter write)

end GrantWrite

/-- The parts of a grant are aligned, lie within the grant and apart from each
other. -/
structure PartsInPlace (decl : GrantDecl) (layout : KernelManagedLayout) : Prop where
  aligned : ∀ part : GrantPart, part.align decl ∣ (part.address decl layout).toNat
  contained : ∀ part : GrantPart, part.offset decl layout + part.size decl ≤ decl.grantSize.toNat
  disjoint : ∀ part part' : GrantPart, part ≠ part' →
    part.offset decl layout + part.size decl ≤ part'.offset decl layout ∨
      part'.offset decl layout + part'.size decl ≤ part.offset decl layout

theorem partsInPlace_fromCounts {decl : GrantDecl} {base : Usize}
    (hbase : decl.grantAlign.toNat ∣ base.toNat) (grantNum : Usize) :
    PartsInPlace decl (.fromCounts base grantNum decl) where
  aligned part := part.align_dvd_address decl hbase grantNum
  contained part := by
    rw [GrantPart.offset_eq]
    exact part.position_add_size_le decl
  disjoint part part' hne := by
    rw [GrantPart.offset_eq, GrantPart.offset_eq]
    exact GrantPart.position_disjoint decl hne

/-- The parts of a grant are in place, after any writes the layout read from the
base is the one made when the grant was initialised, and along every run the
data of the capsule is found at one and the same address: where the default was
written, the stores of the capsule go. -/
theorem grant_memory_layout (decl : GrantDecl) (base grantNum : Usize)
    (hbase : decl.grantAlign.toNat ∣ base.toNat) :
    PartsInPlace decl (.fromCounts base grantNum decl) ∧
      (∀ (memory : Memory 32) (writes : List GrantWrite),
        let memory' := writes.foldl (GrantWrite.apply decl base)
          (KernelManagedLayout.initializeFromCounts memory base decl)
        let layout := KernelManagedLayout.readFromBase memory' base grantNum
        layout = .fromCounts base grantNum decl ∧
          ∀ kind, (layout.number memory' kind).toNat = decl.number kind) ∧
      ∀ (B : Board) (grants : ℕ → GrantDecl) (p : ProcessStandard B)
        (s s' : GrantExecution B), p.Fresh → GrantExecution.Reaches grants (.start p) s →
        GrantExecution.Reaches grants s s' → ∀ first ∈ s.entered, ∀ later ∈ s'.entered,
          later.grantNum = first.grantNum →
          let decl := grants first.grantNum.toNat
          let data := decl.offsetOfGrantDataT first.base
          (grants later.grantNum.toNat).offsetOfGrantDataT later.base = data ∧
            ∀ (q : ProcessStandard B) (bytes : Usize → BitVec 8),
              (writeDefault decl first.base q).memory =
                writeBytes q.memory data decl.grantTSize decl.grantTDefault ∧
              ((GrantAction.setData bytes).apply (grants later.grantNum.toNat) later.layout
                q).memory = writeBytes q.memory data decl.grantTSize bytes := by
  refine ⟨partsInPlace_fromCounts hbase grantNum, ?_, ?_⟩
  · intro memory writes memory' layout
    have hcounter : readWord memory' base = decl.counter :=
      GrantWrite.counters_foldl_apply (readWord_initialized memory base decl) writes
    exact ⟨readFromBase_eq_fromCounts hcounter grantNum, toNat_number grantNum hcounter⟩
  · intro B grants p s s' hfresh hreach hreach' first hfirst later hlater hsame
    have hexclusive := (Reaches.keeps (start_exclusive hfresh) hreach).exclusive
    have hkeeps := Reaches.keeps hexclusive hreach'
    have hbefore := hkeeps.allocatedAt _ _ (hexclusive.base_eq first hfirst)
    have hafter := hkeeps.exclusive.base_eq later hlater
    rw [hsame, hbefore, Option.some.injEq] at hafter
    refine ⟨by rw [hsame, hafter], fun q bytes => ⟨rfl, ?_⟩⟩
    rw [hsame, hafter]
    rfl

/-- One word of data behind the counters and three entries, at the address at
which it was initialised. -/
theorem grant_memory_layout_word : GrantPart.offset (wordGrants 0)
        (.fromCounts 0x20000100 0 (wordGrants 0)) .data + 4 ≤ (wordGrants 0).grantSize.toNat ∧
      ∃ (p : ProcessStandard smallBoard) (s s' : GrantExecution smallBoard), p.Fresh ∧
        GrantExecution.Reaches wordGrants (.start p) s ∧ GrantExecution.Reaches wordGrants s s' ∧
        ∃ first ∈ s.entered, ∃ later ∈ s'.entered,
          first.initialises = true ∧ later.initialises = false ∧
          (wordGrants later.grantNum.toNat).offsetOfGrantDataT later.base =
            (wordGrants first.grantNum.toNat).offsetOfGrantDataT first.base := by
  obtain ⟨hplace, -, hdata⟩ := grant_memory_layout (wordGrants 0) 0x20000100 0 (by decide)
  refine ⟨hplace.contained .data, ?_⟩
  obtain ⟨p, hfresh, s, s', hreach, hreach', first, hfirst, later, hlater,
      hinitialises, haccesses, hsame⟩ : ∃ p : ProcessStandard smallBoard,
      p.Fresh ∧ ∃ s s', Reaches wordGrants (.start p) s ∧ Reaches wordGrants s s' ∧
        ∃ first ∈ s.entered, ∃ later ∈ s'.entered,
          first.initialises ∧ later.initialises = false ∧ later.grantNum = first.grantNum :=
    ⟨_, ProcessStandard.create_fresh unalignedMpuContract (smallArguments 1024) ⟨0⟩ rfl, _, _,
      reaches_calls 1 [.enter 0 true []] rfl, reaches_steps (n := 2) rfl,
      _, List.mem_cons_self, _, List.mem_cons_self, rfl, rfl, rfl⟩
  exact ⟨p, s, s', hfresh, hreach, hreach', first, hfirst, later, hlater,
    hinitialises, haccesses, hdata _ wordGrants p s s' hfresh hreach hreach'
      first hfirst later hlater hsame |>.1⟩

end TockKernel

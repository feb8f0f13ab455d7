import TockKernel.GrantLayout
import TockKernel.KernelLayout

/-!
# What a process has passed to drivers

The upcalls and buffers that a process passes to drivers are kept in raw memory,
at offsets from the grant pointers. Here that memory is read as a map from
(class, driver, number) to values, which every operation on grants leaves alone,
apart from an exchange, which replaces one value.
-/

namespace TockKernel

open ByteMemory KernelManagedLayout BitVec

variable {B : Board} {platform : Platform}

/-! ## The map of saved values -/

namespace ProcessStandard

/-- What is kept for the process under a key; null if there is no grant for
the driver or no entry with the number. -/
def saved (p : ProcessStandard B) (key : SavedKey) : Usize × Usize :=
  match p.lookupGrantFromDriverNum key.driverNum with
  | .error _ => (0, 0)
  | .ok grantNum =>
    match p.grantPointers[grantNum.toNat]? with
    | none => (0, 0)
    | some entry =>
      let layout := KernelManagedLayout.readFromBase p.memory entry.grantPtr grantNum
      if key.num < layout.number p.memory key.kind then
        readPair p.memory (layout.slot key.kind key.num)
      else
        (0, 0)

def HasGrant (p : ProcessStandard B) (i : ℕ) (entry : GrantPointerEntry) : Prop :=
  p.grantPointers[i]? = some entry ∧ entry.grantPtr ≠ 0

/-- The grants of a process lie above its kernel memory break, apart from each
other, each with the counters that its capsule declared, and no two of them are
for one driver. -/
structure GrantsSound (platform : Platform) (p : ProcessStandard B) : Prop where
  driver : ∀ {i entry}, p.HasGrant i entry → entry.driverNum = (platform.grants i).driverNum
  aboveBreak : ∀ {i entry}, p.HasGrant i entry → p.kernelMemoryBreak.toNat ≤ entry.grantPtr.toNat
  fits : ∀ {i entry}, p.HasGrant i entry →
    entry.grantPtr.toNat + (platform.grants i).grantSize.toNat < 2 ^ 32
  counters : ∀ {i entry}, p.HasGrant i entry →
    readWord p.memory entry.grantPtr = (platform.grants i).counter
  apart : ∀ {i j entry entry'}, p.HasGrant i entry → p.HasGrant j entry' → i ≠ j →
    entry.grantPtr.toNat + (platform.grants i).grantSize.toNat ≤ entry'.grantPtr.toNat ∨
      entry'.grantPtr.toNat + (platform.grants j).grantSize.toNat ≤ entry.grantPtr.toNat
  unique : ∀ {i j entry entry'}, p.HasGrant i entry → p.HasGrant j entry' →
    entry.driverNum = entry'.driverNum → i = j

def savedAt (memory : Memory 32) (base : Usize) (decl : GrantDecl)
    (kind : SavedKind) (num : Usize) : Usize × Usize :=
  if num.toNat < decl.number kind then
    readPair memory (base + BitVec.ofNat 32 (4 + 8 * (decl.firstEntry kind + num.toNat)))
  else
    (0, 0)

variable {p p' : ProcessStandard B} {i : ℕ} {entry : GrantPointerEntry} {kind : SavedKind}
  {num : Usize} {key : SavedKey} {contract : B.chip.mpu.Contract}

theorem HasGrant.eq {entry' : GrantPointerEntry} (h : p.HasGrant i entry)
    (h' : p.HasGrant i entry') : entry = entry' :=
  Option.some.inj (h.1.symm.trans h'.1)

section

variable (h : p.GrantsSound platform) (hgrant : p.HasGrant i entry)
include h hgrant

theorem GrantsSound.managed_fits :
    entry.grantPtr.toNat + (platform.grants i).kernelManagedSize.toNat < 2 ^ 32 := by
  have hfits := h.fits hgrant
  have hmanaged := (platform.grants i).managed_add_data_le
  omega

theorem GrantsSound.slot_eq (grantNum : Usize)
    (hnum : num.toNat < (platform.grants i).number kind) :
    (readFromBase p.memory entry.grantPtr grantNum).slot kind num = entry.grantPtr + BitVec.ofNat 32
        (4 + 8 * ((platform.grants i).firstEntry kind + num.toNat)) := by
  have hfits := h.managed_fits hgrant
  have hslot := toNat_slot grantNum (h.counters hgrant) hfits.le hnum
  refine BitVec.eq_of_toNat_eq (hslot.trans (toNat_add_ofNat _ ?_).symm)
  omega

theorem lookup_of_hasGrant (hlen : p.grantPointers.length ≤ 2 ^ 32) :
    ∃ grantNum, p.lookupGrantFromDriverNum entry.driverNum = .ok grantNum ∧ grantNum.toNat = i := by
  cases hlookup : p.lookupGrantFromDriverNum entry.driverNum with
  | ok grantNum =>
    obtain ⟨_, hentry', hptr, hdriver⟩ := lookupGrantFromDriverNum_ok hlen hlookup
    exact ⟨grantNum, rfl, h.unique ⟨hentry', hptr⟩ hgrant hdriver⟩
  | error error =>
    unfold lookupGrantFromDriverNum at hlookup
    split at hlookup
    · cases hlookup
    next hnone =>
    have hnot := List.findIdx?_eq_none_iff.mp hnone entry (List.mem_of_getElem? hgrant.1)
    simp only [beq_self_eq_true, Bool.and_true, bne_eq_false_iff_eq] at hnot
    exact absurd hnot hgrant.2

theorem GrantsSound.saved_eq (hlen : p.grantPointers.length ≤ 2 ^ 32)
    (hdriver : key.driverNum = entry.driverNum) :
    p.saved key = savedAt p.memory entry.grantPtr (platform.grants i) key.kind key.num := by
  obtain ⟨grantNum, hlookup, hnum⟩ := lookup_of_hasGrant h hgrant hlen
  have hnumber := toNat_number grantNum (h.counters hgrant) key.kind
  unfold saved savedAt
  rw [hdriver, hlookup]
  simp only [hnum, hgrant.1]
  simp only [BitVec.lt_def, hnumber]
  split_ifs with hlt
  · rw [h.slot_eq hgrant grantNum hlt]
  · rfl

end

theorem saved_of_no_grant (hlen : p.grantPointers.length ≤ 2 ^ 32)
    (hnone : ∀ i entry, p.HasGrant i entry → entry.driverNum ≠ key.driverNum) :
    p.saved key = (0, 0) := by
  unfold saved
  cases hlookup : p.lookupGrantFromDriverNum key.driverNum with
  | error error => rfl
  | ok grantNum =>
    obtain ⟨entry, hentry, hptr, hdriver⟩ := lookupGrantFromDriverNum_ok hlen hlookup
    exact absurd hdriver (hnone _ entry ⟨hentry, hptr⟩)

/-! ## Changes that keep the map -/

/-- The table of grants is the same, and so is what the kernel manages in each
of them. -/
structure KeepsGrants (platform : Platform) (p p' : ProcessStandard B) : Prop where
  table : p'.grantPointers = p.grantPointers
  break_le : p'.kernelMemoryBreak.toNat ≤ p.kernelMemoryBreak.toNat
  managed : ∀ {i entry}, p.HasGrant i entry → AgreeOn p.memory p'.memory entry.grantPtr.toNat
    (entry.grantPtr.toNat + (platform.grants i).kernelManagedSize.toNat)

theorem KeepsGrants.refl (p : ProcessStandard B) : p.KeepsGrants platform p :=
  ⟨rfl, le_rfl, fun _ => .refl _ _ _⟩

theorem KeepsGrants.hasGrant (h : p.KeepsGrants platform p') :
    p'.HasGrant i entry ↔ p.HasGrant i entry := by
  unfold HasGrant
  rw [h.table]

theorem savedAt_of_agree {memory memory' : Memory 32} {base : Usize} {decl : GrantDecl}
    (hfits : base.toNat + decl.kernelManagedSize.toNat < 2 ^ 32)
    (hagree : AgreeOn memory memory' base.toNat (base.toNat + decl.kernelManagedSize.toNat))
    (kind : SavedKind) (num : Usize) :
    savedAt memory' base decl kind num = savedAt memory base decl kind num := by
  unfold savedAt
  split_ifs with hnum
  · have hentry := decl.firstEntry_add_lt hnum
    rw [decl.toNat_kernelManagedSize] at hfits hagree
    have haddr := toNat_add_ofNat base (i := 4 + 8 * (decl.firstEntry kind + num.toNat)) (by omega)
    exact hagree.readPair_eq (by omega) (by omega) (by omega)
  · rfl

section

variable (h : p.GrantsSound platform)
include h

theorem GrantsSound.of_keeps (hkeeps : p.KeepsGrants platform p') : p'.GrantsSound platform where
  driver hgrant := h.driver (hkeeps.hasGrant.mp hgrant)
  aboveBreak hgrant := hkeeps.break_le.trans (h.aboveBreak (hkeeps.hasGrant.mp hgrant))
  fits hgrant := h.fits (hkeeps.hasGrant.mp hgrant)
  counters {i entry} hgrant := by
    have hgrant := hkeeps.hasGrant.mp hgrant
    have hfits := h.managed_fits hgrant
    have hsize := (platform.grants i).toNat_kernelManagedSize
    rw [(hkeeps.managed hgrant).readWord_eq le_rfl (by omega) (by omega)]
    exact h.counters hgrant
  apart hgrant hgrant' := h.apart (hkeeps.hasGrant.mp hgrant) (hkeeps.hasGrant.mp hgrant')
  unique hgrant hgrant' := h.unique (hkeeps.hasGrant.mp hgrant) (hkeeps.hasGrant.mp hgrant')

theorem GrantsSound.saved_of_keeps (hlen : p.grantPointers.length ≤ 2 ^ 32)
    (hkeeps : p.KeepsGrants platform p') (key : SavedKey) : p'.saved key = p.saved key := by
  have hlength' : p'.grantPointers.length ≤ 2 ^ 32 := by
    rw [hkeeps.table]
    exact hlen
  by_cases hdriver : ∃ i entry, p.HasGrant i entry ∧ key.driverNum = entry.driverNum
  · obtain ⟨i, entry, hgrant, hdriver⟩ := hdriver
    rw [h.saved_eq hgrant hlen hdriver, (h.of_keeps hkeeps).saved_eq
      (hkeeps.hasGrant.mpr hgrant) hlength' hdriver]
    exact savedAt_of_agree (h.managed_fits hgrant) (hkeeps.managed hgrant) _ _
  push Not at hdriver
  rw [saved_of_no_grant hlen fun i entry hgrant heq =>
      hdriver i entry hgrant heq.symm,
    saved_of_no_grant hlength' fun i entry hgrant heq =>
      hdriver i entry (hkeeps.hasGrant.mp hgrant) heq.symm]

theorem GrantsSound.keeps_of_below (hbreaks : p.appBreak.toNat ≤ p.kernelMemoryBreak.toNat)
    (hsame : p.SameTasksAndGrants p') : p.KeepsGrants platform p' where
  table := hsame.grantPointers
  break_le := by rw [hsame.kernelMemoryBreak]
  managed hgrant := hsame.memory.mono
    (max_le (hbreaks.trans (h.aboveBreak hgrant)) (h.aboveBreak hgrant)) (h.managed_fits hgrant).le

theorem GrantsSound.keeps_setData (hgrant : p.HasGrant i entry) (bytes : Usize → BitVec 8) :
    p.KeepsGrants platform { p with
      memory := writeBytes p.memory (entry.grantPtr +
        ((platform.grants i).grantSize - (platform.grants i).grantTSize))
        (platform.grants i).grantTSize bytes } where
  table := rfl
  break_le := le_rfl
  managed {j entry'} hgrant' := by
    have hfits := h.fits hgrant
    have hdata := (platform.grants i).managed_add_data_le
    have hdata' := (platform.grants j).managed_add_data_le
    have hstart : (entry.grantPtr + ((platform.grants i).grantSize -
        (platform.grants i).grantTSize)).toNat = entry.grantPtr.toNat +
          ((platform.grants i).grantSize.toNat - (platform.grants i).grantTSize.toNat) := by
      rw [toNat_add, toNat_sub_of_le (le_def.mpr (by omega)), Nat.mod_eq_of_lt (by omega)]
    refine agreeOn_writeBytes _ _ _ _ (by omega) ?_
    by_cases hsame : i = j
    · subst hsame
      obtain rfl := hgrant.eq hgrant'
      omega
    · have happart := h.apart hgrant hgrant' hsame
      omega

end

/-! ## Tasks for upcalls -/

/-- The task, if it is the call of an upcall, has the function and the data
that are saved for the upcall. -/
def TaskFresh (saved : SavedKey → Usize × Usize) (task : Task) : Prop :=
  ∀ call id, task = .functionCall call → call.source = .driver id → (call.argument3, call.pc) =
      saved ⟨.upcall, id.driverNum, id.subscribeNum⟩

/-- The saved values stay as they are, and the tasks that are queued fit
them. -/
structure KeepsSaved (p p' : ProcessStandard B) : Prop where
  saved : p'.saved = p.saved
  queued : ∀ task ∈ p'.tasks.toList, task ∈ p.tasks.toList ∨ TaskFresh p.saved task

theorem KeepsSaved.trans {p'' : ProcessStandard B} (h : p.KeepsSaved p')
    (h' : p'.KeepsSaved p'') : p.KeepsSaved p'' where
  saved := h'.saved.trans h.saved
  queued task hmem := by
    rcases h'.queued task hmem with hmem | hfresh
    · exact h.queued task hmem
    · rw [h.saved] at hfresh
      exact .inr hfresh

theorem GrantsSound.keepsSaved (h : p.GrantsSound platform)
    (hlen : p.grantPointers.length ≤ 2 ^ 32) (hkeeps : p.KeepsGrants platform p')
    (hqueued : ∀ task ∈ p'.tasks.toList, task ∈ p.tasks.toList ∨ TaskFresh p.saved task) :
    p'.GrantsSound platform ∧ p.KeepsSaved p' :=
  ⟨h.of_keeps hkeeps, funext (h.saved_of_keeps hlen hkeeps), hqueued⟩

theorem mem_enqueueTask {task task' : Task} (hmem : task' ∈ (p.enqueueTask task).2.tasks.toList) :
    task' ∈ p.tasks.toList ∨ task' = task := by
  obtain ⟨tasks, _, hframe, htasks⟩ := p.enqueueTask_outcome task
  rw [hframe] at hmem
  rcases htasks with htasks | ⟨-, htasks⟩
  · rw [htasks] at hmem
    exact .inl hmem
  · simpa [htasks] using hmem

theorem keepsGrants_enqueueTask (task : Task) : p.KeepsGrants platform (p.enqueueTask task).2 := by
  obtain ⟨_, _, hframe, -⟩ := p.enqueueTask_outcome task
  rw [hframe]
  exact ⟨rfl, le_rfl, fun _ => .refl _ _ _⟩

theorem GrantsSound.taskFresh (h : p.GrantsSound platform)
    (hlen : p.grantPointers.length ≤ 2 ^ 32) (hgrant : p.HasGrant i entry) (grantNum : Usize)
    (hnum : num < (readFromBase p.memory entry.grantPtr grantNum).number p.memory .upcall)
    (r0 r1 r2 : Usize) :
    TaskFresh p.saved ((p.savedUpcall (.readFromBase p.memory entry.grantPtr
      grantNum) (platform.grants i).driverNum num).task r0 r1 r2) := by
  rw [lt_def, toNat_number grantNum (h.counters hgrant)] at hnum
  have hsaved := h.saved_eq hgrant hlen (show
    (⟨.upcall, (platform.grants i).driverNum, num⟩ : SavedKey).driverNum =
      entry.driverNum from (h.driver hgrant).symm)
  rw [savedAt, if_pos hnum, ← h.slot_eq hgrant grantNum hnum] at hsaved
  intro call id htask hsource
  unfold Upcall.task at htask
  split_ifs at htask
  cases htask
  cases hsource
  exact hsaved.symm

theorem GrantsSound.readFromBase_of_keeps (h : p.GrantsSound platform)
    (hkeeps : p.KeepsGrants platform p') (hgrant : p.HasGrant i entry) (grantNum : Usize) :
    readFromBase p'.memory entry.grantPtr grantNum =
      .readFromBase p.memory entry.grantPtr grantNum := by
  have hcounters := (h.of_keeps hkeeps).counters (hkeeps.hasGrant.mpr hgrant)
  simp [readFromBase, hcounters, h.counters hgrant]

section

variable (h : p.GrantsSound platform)
  (hlen : p.grantPointers.length ≤ 2 ^ 32) (hgrant : p.HasGrant i entry) (grantNum : Usize)
include h hlen hgrant grantNum

theorem GrantsSound.apply (action : GrantAction) :
    p.KeepsGrants platform (GrantAction.apply (platform.grants i)
        (.readFromBase p.memory entry.grantPtr grantNum) p action) ∧
      ∀ task ∈ (GrantAction.apply (platform.grants i)
          (.readFromBase p.memory entry.grantPtr grantNum) p action).tasks.toList,
        task ∈ p.tasks.toList ∨ TaskFresh p.saved task := by
  cases action with
  | scheduleUpcall subscribeNum r0 r1 r2 =>
    simp only [GrantAction.apply, scheduleUpcall_snd]
    split_ifs with hnum
    · refine ⟨keepsGrants_enqueueTask _, fun task hmem => ?_⟩
      rcases mem_enqueueTask hmem with hold | rfl
      · exact .inl hold
      · exact .inr (h.taskFresh hlen hgrant grantNum hnum r0 r1 r2)
    · exact ⟨.refl p, fun _ => .inl⟩
  | setData bytes => exact ⟨h.keeps_setData hgrant bytes, fun _ => .inl⟩
  | allocate size align =>
    simp only [GrantAction.apply, allocateCustomGrant]
    split_ifs
    · exact ⟨.refl p, fun _ => .inl⟩
    rcases p.allocateInGrantRegionInternal_outcome size align with
      ⟨_, hnone⟩ | ⟨_, -, hhigh, hsome⟩
    · rw [hnone]
      exact ⟨⟨rfl, le_rfl, fun _ => .refl _ _ _⟩, fun _ => .inl⟩
    · rw [hsome]
      exact ⟨⟨rfl, le_def.mp hhigh, fun _ => .refl _ _ _⟩, fun _ => .inl⟩

theorem GrantsSound.foldl_apply (closure : List GrantAction) :
    (closure.foldl (GrantAction.apply (platform.grants i)
        (.readFromBase p.memory entry.grantPtr grantNum)) p).GrantsSound platform ∧
      p.KeepsSaved (closure.foldl (GrantAction.apply (platform.grants i)
        (.readFromBase p.memory entry.grantPtr grantNum)) p) := by
  induction closure generalizing p with
  | nil => exact ⟨h, rfl, fun _ => .inl⟩
  | cons action closure ih =>
    obtain ⟨hkeeps, hqueued⟩ := h.apply hlen hgrant grantNum action
    obtain ⟨hsound, hsaved⟩ := h.keepsSaved hlen hkeeps hqueued
    have hrest := ih hsound (by rw [hkeeps.table]; exact hlen) (hkeeps.hasGrant.mpr hgrant)
    rw [h.readFromBase_of_keeps hkeeps hgrant grantNum] at hrest
    exact ⟨hrest.1, hsaved.trans hrest.2⟩

end

/-! ## Allocating a grant -/

section

variable {grantNum : Usize} {decl : GrantDecl} {base : Usize}
  {config : Option B.chip.mpu.MpuConfig}

/-- The process after a grant has been placed at `base`. -/
def withGrant (p : ProcessStandard B) (grantNum : Usize) (decl : GrantDecl)
    (base : Usize) (config : Option B.chip.mpu.MpuConfig) : ProcessStandard B :=
  { p with
    kernelMemoryBreak := base
    mpuConfig := config
    grantPointers := p.grantPointers.set grantNum.toNat ⟨decl.driverNum, base⟩
    memory := grantMemory p.memory base decl }

theorem withGrant_hasGrant {entry' : GrantPointerEntry}
    (h : (p.withGrant grantNum decl base config).HasGrant j entry') :
    j = grantNum.toNat ∧ entry' = ⟨decl.driverNum, base⟩ ∨
      j ≠ grantNum.toNat ∧ p.HasGrant j entry' := by
  obtain ⟨hentry, hptr⟩ := h
  by_cases hsame : grantNum.toNat = j
  · left
    simp only [withGrant, List.getElem?_set] at hentry
    split_ifs at hentry
    exact ⟨hsame.symm, (Option.some.inj hentry).symm⟩
  right
  simp only [withGrant, List.getElem?_set_ne hsame] at hentry
  exact ⟨Ne.symm hsame, hentry, hptr⟩

section

variable (memory : Memory 32) (hfits : base.toNat + decl.grantSize.toNat < 2 ^ 32)
include memory hfits

theorem grantMemory_agree {low high : ℕ}
    (happart : high ≤ base.toNat + decl.kernelManagedSize.toNat ∨
      base.toNat + decl.grantSize.toNat ≤ low) :
    AgreeOn (initializeFromCounts memory base decl) (grantMemory memory base decl) low high := by
  have hdata := decl.managed_add_data_le
  have hstart : (base + (decl.grantSize - decl.grantTSize)).toNat =
      base.toNat + (decl.grantSize.toNat - decl.grantTSize.toNat) := by
    rw [toNat_add, toNat_sub_of_le (le_def.mpr (by omega)), Nat.mod_eq_of_lt (by omega)]
  exact agreeOn_writeBytes _ _ _ _ (by omega) (by omega)

theorem agreeOn_grantMemory {low high : ℕ}
    (happart : high ≤ base.toNat ∨ base.toNat + decl.grantSize.toNat ≤ low) :
    AgreeOn memory (grantMemory memory base decl) low high := by
  have hdata := decl.managed_add_data_le
  exact (agreeOn_initializeFromCounts memory (by omega)
    (by omega)).trans (grantMemory_agree memory hfits (by omega))

theorem readWord_grantMemory : readWord (grantMemory memory base decl) base = decl.counter := by
  have hdata := decl.managed_add_data_le
  have hsize := decl.toNat_kernelManagedSize
  have hagree : AgreeOn (initializeFromCounts memory base decl)
      (grantMemory memory base decl) base.toNat (base.toNat + decl.kernelManagedSize.toNat) :=
    grantMemory_agree memory hfits (by omega)
  rw [hagree.readWord_eq le_rfl (by omega) (by omega)]
  exact readWord_initializeFromCounts memory (by omega)

theorem savedAt_grantMemory (kind : SavedKind) (num : Usize) :
    savedAt (grantMemory memory base decl) base decl kind num = (0, 0) := by
  have hdata := decl.managed_add_data_le
  have hagree : AgreeOn (initializeFromCounts memory base decl)
      (grantMemory memory base decl) base.toNat (base.toNat + decl.kernelManagedSize.toNat) :=
    grantMemory_agree memory hfits (by omega)
  rw [savedAt_of_agree (by omega) hagree, savedAt]
  split_ifs with hnum
  · have hentry := decl.firstEntry_add_lt hnum
    have hsize := decl.toNat_kernelManagedSize
    exact readPair_initializeFromCounts memory (by omega) hentry (toNat_add_ofNat base (by omega))
  · rfl

end

theorem GrantsSound.withGrant (h : p.GrantsSound platform)
    (hunused : ∀ entry ∈ p.grantPointers, entry.grantPtr ≠ 0 →
      entry.driverNum ≠ (platform.grants grantNum.toNat).driverNum)
    (hbelow : base.toNat + (platform.grants grantNum.toNat).grantSize.toNat ≤
      p.kernelMemoryBreak.toNat) :
    (p.withGrant grantNum (platform.grants grantNum.toNat) base config).GrantsSound platform := by
  have hfits : base.toNat + (platform.grants grantNum.toNat).grantSize.toNat < 2 ^ 32 := by omega
  constructor
  · intro j entry hgrant
    rcases withGrant_hasGrant hgrant with ⟨rfl, rfl⟩ | ⟨-, hold⟩
    · rfl
    · exact h.driver hold
  · intro j entry hgrant
    rcases withGrant_hasGrant hgrant with ⟨rfl, rfl⟩ | ⟨-, hold⟩
    · exact le_rfl
    have habove := h.aboveBreak hold
    change base.toNat ≤ _
    omega
  · intro j entry hgrant
    rcases withGrant_hasGrant hgrant with ⟨rfl, rfl⟩ | ⟨-, hold⟩
    · exact hfits
    · exact h.fits hold
  · intro j entry hgrant
    rcases withGrant_hasGrant hgrant with ⟨rfl, rfl⟩ | ⟨-, hold⟩
    · exact readWord_grantMemory p.memory hfits
    have habove := h.aboveBreak hold
    have hmanaged := h.managed_fits hold
    have hsize := (platform.grants j).toNat_kernelManagedSize
    have hagree : AgreeOn p.memory (grantMemory p.memory base
        (platform.grants grantNum.toNat)) entry.grantPtr.toNat (2 ^ 32) :=
      agreeOn_grantMemory p.memory hfits (by omega)
    exact (hagree.readWord_eq le_rfl (by omega) (by omega)).trans (h.counters hold)
  · intro j k entry entry' hgrant hgrant' hne
    rcases withGrant_hasGrant hgrant with ⟨rfl, rfl⟩ | ⟨-, hold⟩
    · rcases withGrant_hasGrant hgrant' with ⟨rfl, rfl⟩ | ⟨-, hold'⟩
      · exact absurd rfl hne
      · have habove := h.aboveBreak hold'
        exact .inl (hbelow.trans habove)
    rcases withGrant_hasGrant hgrant' with ⟨rfl, rfl⟩ | ⟨-, hold'⟩
    · have habove := h.aboveBreak hold
      exact .inr (hbelow.trans habove)
    · exact h.apart hold hold' hne
  · intro j k entry entry' hgrant hgrant' hdriver
    rcases withGrant_hasGrant hgrant with ⟨rfl, rfl⟩ | ⟨-, hold⟩
    · rcases withGrant_hasGrant hgrant' with ⟨rfl, rfl⟩ | ⟨-, hold'⟩
      · rfl
      · exact absurd hdriver.symm (hunused entry' (List.mem_of_getElem? hold'.1) hold'.2)
    rcases withGrant_hasGrant hgrant' with ⟨rfl, rfl⟩ | ⟨-, hold'⟩
    · exact absurd hdriver (hunused entry (List.mem_of_getElem? hold.1) hold.2)
    · exact h.unique hold hold' hdriver

theorem withGrant_hasGrant_of_ne (hne : j ≠ grantNum.toNat) (hgrant : p.HasGrant j entry) :
    (p.withGrant grantNum decl base config).HasGrant j entry :=
  ⟨(List.getElem?_set_ne (Ne.symm hne)).trans hgrant.1, hgrant.2⟩

theorem GrantsSound.saved_withGrant (h : p.GrantsSound platform)
    (hlen : p.grantPointers.length ≤ 2 ^ 32)
    (hfree : p.grantPointers[grantNum.toNat]? = some entry) (hnull : entry.grantPtr = 0)
    (hunused : ∀ entry ∈ p.grantPointers, entry.grantPtr ≠ 0 →
      entry.driverNum ≠ (platform.grants grantNum.toNat).driverNum)
    (hbelow : base.toNat + (platform.grants grantNum.toNat).grantSize.toNat ≤
      p.kernelMemoryBreak.toNat)
    (hbase : base ≠ 0) (key : SavedKey) :
    (p.withGrant grantNum (platform.grants grantNum.toNat) base config).saved
      key = p.saved key := by
  have hfits : base.toNat + (platform.grants grantNum.toNat).grantSize.toNat < 2 ^ 32 := by omega
  have hsound : (p.withGrant grantNum (platform.grants grantNum.toNat) base
      config).GrantsSound platform := h.withGrant hunused hbelow
  have hlength' : (p.withGrant grantNum (platform.grants grantNum.toNat) base
      config).grantPointers.length ≤ 2 ^ 32 := by
    simpa [ProcessStandard.withGrant] using hlen
  have hlt := (List.getElem?_eq_some_iff.mp hfree).1
  by_cases hdriver : key.driverNum = (platform.grants grantNum.toNat).driverNum
  · have hgrant : (p.withGrant grantNum (platform.grants grantNum.toNat) base
        config).HasGrant grantNum.toNat ⟨(platform.grants grantNum.toNat).driverNum, base⟩ :=
      ⟨List.getElem?_set_self hlt, hbase⟩
    rw [hsound.saved_eq hgrant hlength' hdriver, saved_of_no_grant hlen fun j entry hold =>
      hdriver ▸ hunused entry (List.mem_of_getElem? hold.1) hold.2]
    exact savedAt_grantMemory p.memory hfits key.kind key.num
  by_cases hother : ∃ j entry, p.HasGrant j entry ∧ key.driverNum = entry.driverNum
  · obtain ⟨j, entry', hgrant, hdriver'⟩ := hother
    have hne : j ≠ grantNum.toNat := by
      rintro rfl
      obtain rfl := Option.some.inj (hfree.symm.trans hgrant.1)
      exact hgrant.2 hnull
    have habove := h.aboveBreak hgrant
    have hagree : AgreeOn p.memory (grantMemory p.memory base
        (platform.grants grantNum.toNat)) entry'.grantPtr.toNat (entry'.grantPtr.toNat +
          (platform.grants j).kernelManagedSize.toNat) :=
      agreeOn_grantMemory p.memory hfits (by omega)
    rw [hsound.saved_eq (withGrant_hasGrant_of_ne hne hgrant) hlength' hdriver',
      h.saved_eq hgrant hlen hdriver']
    exact savedAt_of_agree (h.managed_fits hgrant) hagree key.kind key.num
  · push Not at hother
    rw [saved_of_no_grant hlen fun j entry hgrant heq =>
      hother j entry hgrant heq.symm]
    refine saved_of_no_grant hlength' fun j entry' hgrant heq => ?_
    rcases withGrant_hasGrant hgrant with ⟨rfl, rfl⟩ | ⟨-, hold⟩
    · exact hdriver heq.symm
    · exact hother j entry' hold heq.symm

end

theorem GrantsSound.newProcessGrant (h : p.GrantsSound platform)
    (hlayout : p.LayoutInvariant contract)
    (hlen : p.grantPointers.length ≤ 2 ^ 32) (grantNum : Usize) :
    (p.newProcessGrant grantNum (platform.grants grantNum.toNat)).2.GrantsSound platform ∧
      p.KeepsSaved (p.newProcessGrant grantNum (platform.grants grantNum.toNat)).2 := by
  rcases p.newProcessGrant_cases grantNum (platform.grants grantNum.toNat) with
    ⟨-, hfound⟩ | ⟨_, config, -, herror⟩ | ⟨config, hfree, hunused, hlow, hhigh, hnew⟩
  · rw [hfound]
    exact ⟨h, rfl, fun _ => .inl⟩
  · rw [herror]
    exact h.keepsSaved hlen ⟨rfl, le_rfl, fun _ => .refl _ _ _⟩ fun _ => .inl
  obtain ⟨-, entry, hentry, hptr⟩ := grantIsAllocated_eq_some.mp hfree
  obtain ⟨k, -, -, halign⟩ := (platform.grants grantNum.toNat).toNat_grantAlign
  have hbelow := (nextGrantAddress_spec halign
    (platform.grants grantNum.toNat).grantSize_fits hhigh).1
  have happ := hlayout.appBreak_pos
  have hbase : p.nextGrantAddress (platform.grants grantNum.toNat).grantSize
      (platform.grants grantNum.toNat).grantAlign ≠ 0 := by
    intro hzero
    rw [hzero] at hlow
    exact absurd happ (Nat.not_lt.mpr hlow)
  have hnull : entry.grantPtr = 0 := by simpa using hptr
  rw [hnew]
  exact ⟨h.withGrant hunused hbelow, funext (h.saved_withGrant hlen hentry
    hnull hunused hbelow hbase), fun _ => .inl⟩

theorem LayoutInvariant.grantPointers_length_le (h : p.LayoutInvariant contract) :
    p.grantPointers.length ≤ 2 ^ 32 := by
  have hlen : p.grantPointers.length = B.grantCount.toNat := h.placed.grantPointers_length
  omega

/-- The work on a process keeps its grants sound and what is saved in them. -/
theorem GrantsSound.work {drops : Prop} (h : p.GrantsSound platform)
    (hlayout : p.LayoutInvariant contract) (hwork : ProcessWork platform drops p p') :
    p'.GrantsSound platform ∧ p.KeepsSaved p' := by
  have hlen := hlayout.grantPointers_length_le
  cases hwork with
  | quiet hquiet =>
    have hsame := hquiet.same
    refine h.keepsSaved hlen (h.keeps_of_below
      hlayout.ordered.appBreak_le_kernelBreak hsame) fun task hmem => ?_
    rw [hsame.tasks] at hmem
    exact .inl hmem
  | dropTasks tasks _ hsublist =>
    exact h.keepsSaved hlen ⟨rfl, le_rfl, fun _ => .refl _ _ _⟩
      fun task hmem => .inl (hsublist.subset hmem)
  | enqueueIpc caller kind _ =>
    refine h.keepsSaved hlen (keepsGrants_enqueueTask _) ?_
    intro task hmem
    refine (mem_enqueueTask hmem).imp_right ?_
    rintro rfl call id hcall
    cases hcall
  | newProcessGrant grantNum => exact h.newProcessGrant hlayout hlen grantNum
  | accessGrant grantNum closure hallocated haccess =>
    obtain ⟨-, entry, hentry, -, rfl⟩ := accessGrant_ok haccess
    have happ := hlayout.appBreak_pos
    have hptr : entry.grantPtr ≠ 0 := by
      intro hnull
      rw [hallocated entry hentry hnull] at happ
      exact absurd happ (by decide)
    exact h.foldl_apply hlen ⟨hentry, hptr⟩ grantNum closure

/-! ## Exchanging a value -/

theorem GrantsSound.writeEntry (h : p.GrantsSound platform) (hgrant : p.HasGrant i entry)
    (hnum : num.toNat < (platform.grants i).number kind) {address : Usize}
    (haddr : address.toNat = entry.grantPtr.toNat + (4 + 8 *
      ((platform.grants i).firstEntry kind + num.toNat))) (new : Usize × Usize) :
    { p with memory := writePair p.memory address new }.GrantsSound platform where
  driver := h.driver
  aboveBreak := h.aboveBreak
  fits := h.fits
  apart := h.apart
  unique := h.unique
  counters {j entry'} hgrant' := by
    have hentry := (platform.grants i).firstEntry_add_lt hnum
    have hsize := (platform.grants i).toNat_kernelManagedSize
    have hsize' := (platform.grants j).toNat_kernelManagedSize
    have hdata := (platform.grants i).managed_add_data_le
    have hdata' := (platform.grants j).managed_add_data_le
    have hfits := h.fits hgrant
    have hfits' := h.fits hgrant'
    have hagree : AgreeOn p.memory (writePair p.memory address new)
        entry'.grantPtr.toNat (entry'.grantPtr.toNat + 4) := by
      refine agreeOn_writePair _ _ _ (by omega) ?_
      by_cases hsame : i = j
      · subst hsame
        obtain rfl := hgrant.eq hgrant'
        omega
      · have happart := h.apart hgrant hgrant' hsame
        omega
    exact (hagree.readWord_eq le_rfl le_rfl (by omega)).trans (h.counters hgrant')

theorem savedAt_writePair (memory : Memory 32) {base : Usize} {decl : GrantDecl}
    (hfits : base.toNat + decl.kernelManagedSize.toNat < 2 ^ 32)
    (hnum : num.toNat < decl.number kind) {address : Usize}
    (haddr : address.toNat = base.toNat + (4 + 8 * (decl.firstEntry kind + num.toNat)))
    (new : Usize × Usize) (kind' : SavedKind) (num' : Usize) :
    savedAt (writePair memory address new) base decl kind' num' =
      if kind' = kind ∧ num' = num then new
      else savedAt memory base decl kind' num' := by
  have hentry := decl.firstEntry_add_lt hnum
  rw [decl.toNat_kernelManagedSize] at hfits
  unfold savedAt
  by_cases hnum' : num'.toNat < decl.number kind'
  · have hentry' := decl.firstEntry_add_lt hnum'
    have haddress' := toNat_add_ofNat base
      (i := 4 + 8 * (decl.firstEntry kind' + num'.toNat)) (by omega)
    split_ifs with hsame
    · obtain ⟨rfl, rfl⟩ := hsame
      rw [eq_of_toNat_eq (haddress'.trans haddr.symm)]
      exact readPair_writePair memory address new (by omega)
    have happart : decl.firstEntry kind' + num'.toNat ≠
        decl.firstEntry kind + num.toNat := fun heq => hsame
      ((decl.firstEntry_add_injective hnum' hnum heq).imp_right eq_of_toNat_eq)
    have hagree : AgreeOn memory (writePair memory address new)
        (base.toNat + (4 + 8 * (decl.firstEntry kind' + num'.toNat)))
        (base.toNat + (4 + 8 * (decl.firstEntry kind' + num'.toNat)) + 8) :=
      agreeOn_writePair _ _ _ (by omega) (by omega)
    exact hagree.readPair_eq (by omega) (by omega) (by omega)
  · rw [if_neg hnum', if_neg hnum', if_neg]
    rintro ⟨rfl, rfl⟩
    exact hnum' hnum

section

variable (h : p.GrantsSound platform) (hlen : p.grantPointers.length ≤ 2 ^ 32)
include h hlen

theorem GrantsSound.saved_writeEntry (hgrant : p.HasGrant i entry)
    (hdriver : key.driverNum = entry.driverNum)
    (hnum : key.num.toNat < (platform.grants i).number key.kind) {address : Usize}
    (haddr : address.toNat = entry.grantPtr.toNat + (4 + 8 * ((platform.grants i).firstEntry
      key.kind + key.num.toNat)))
    (new : Usize × Usize) (key' : SavedKey) :
    { p with memory := writePair p.memory address new }.saved key' =
      if key' = key then new else p.saved key' := by
  have hsound := h.writeEntry hgrant hnum haddr new
  have hentry := (platform.grants i).firstEntry_add_lt hnum
  have hsize := (platform.grants i).toNat_kernelManagedSize
  have hdata := (platform.grants i).managed_add_data_le
  have hfits := h.fits hgrant
  by_cases hother : ∃ j entry', p.HasGrant j entry' ∧ key'.driverNum = entry'.driverNum
  · obtain ⟨j, entry', hgrant', hdriver'⟩ := hother
    have hmanaged := h.managed_fits hgrant'
    have hdata' := (platform.grants j).managed_add_data_le
    rw [hsound.saved_eq hgrant' hlen hdriver', h.saved_eq hgrant' hlen hdriver']
    by_cases hsame : i = j
    · subst hsame
      obtain rfl := hgrant.eq hgrant'
      have hkeys : key'.kind = key.kind ∧ key'.num = key.num ↔ key' = key := by
        constructor
        · rintro ⟨hkind, hnum⟩
          cases key
          cases key'
          simp_all
        · rintro rfl
          exact ⟨rfl, rfl⟩
      simp only [← hkeys]
      exact savedAt_writePair p.memory hmanaged hnum haddr new _ _
    · have happart := h.apart hgrant hgrant' hsame
      have hne : key' ≠ key := by
        rintro rfl
        exact hsame (h.unique hgrant hgrant' (hdriver.symm.trans hdriver'))
      have hagree : AgreeOn p.memory (writePair p.memory address new)
          entry'.grantPtr.toNat (entry'.grantPtr.toNat +
            (platform.grants j).kernelManagedSize.toNat) :=
        agreeOn_writePair _ _ _ (by omega) (by omega)
      rw [if_neg hne]
      exact savedAt_of_agree hmanaged hagree _ _
  · push Not at hother
    have hne : key' ≠ key := by
      rintro rfl
      exact hother i entry hgrant hdriver
    have hnone : ∀ j entry, p.HasGrant j entry →
        entry.driverNum ≠ key'.driverNum := fun j entry hgrant heq =>
      hother j entry hgrant heq.symm
    rw [if_neg hne, saved_of_no_grant hlen hnone]
    exact saved_of_no_grant hlen hnone

theorem GrantsSound.swapSaved {new old : Usize × Usize}
    (hswap : p.swapSaved key.kind key.driverNum key.num new = (.ok old, p')) :
    p'.GrantsSound platform ∧ old = p.saved key ∧
      (∀ key', p'.saved key' = if key' = key then new else p.saved key') ∧ p'.tasks = p.tasks := by
  rcases p.swapSaved_cases key.kind key.driverNum key.num new with
    ⟨_, herror⟩ | ⟨grantNum, entry, _, -, hlookup, hentry, hlayout, hnum, hok⟩
  · rw [herror] at hswap
    cases hswap
  obtain ⟨_, hentry', hptr, hdriver⟩ := lookupGrantFromDriverNum_ok hlen hlookup
  obtain rfl := Option.some.inj (hentry.symm.trans hentry')
  have hgrant : p.HasGrant grantNum.toNat entry := ⟨hentry, hptr⟩
  subst hlayout
  rw [lt_def, toNat_number grantNum (h.counters hgrant)] at hnum
  have haddr := toNat_slot grantNum (h.counters hgrant) (h.managed_fits hgrant).le hnum
  rw [hok] at hswap
  cases hswap
  refine ⟨h.writeEntry hgrant hnum haddr new, ?_, h.saved_writeEntry
    hlen hgrant hdriver.symm hnum haddr new, rfl⟩
  rw [h.saved_eq hgrant hlen hdriver.symm, savedAt, if_pos hnum, h.slot_eq hgrant grantNum hnum]

end

end ProcessStandard

end TockKernel

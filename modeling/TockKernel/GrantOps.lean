import TockKernel.Grant
import TockKernel.KernelOwnedMemory

/-!
# Operations on grants

What the calls of `Grant.lean` can do, said once for each of them. While a
grant is entered its pointer is marked; nothing that happens in between looks
at the mark, and leaving the grant removes it, so that entering and leaving
cancel.
-/

namespace TockKernel

variable {B : Board}

/-! ## Sizes -/

namespace GrantDecl

open BitVec

variable (decl : GrantDecl)

def entries : ℕ :=
  decl.upcalls.toNat + decl.allowRos.toNat + decl.allowRws.toNat

theorem entries_le : decl.entries ≤ 765 := by
  unfold entries
  omega

theorem toNat_kernelManagedSize : decl.kernelManagedSize.toNat = 4 + 8 * decl.entries := by
  simp only [kernelManagedSize, entries, toNat_add, toNat_mul,
    toNat_setWidth, ofNat_eq_ofNat, toNat_ofNat]
  omega

theorem toNat_grantAlign : ∃ k, 2 ≤ k ∧ k ≤ 29 ∧ decl.grantAlign.toNat = 2 ^ k := by
  obtain ⟨k, hk, halign⟩ := decl.grantTAlign_eq
  refine ⟨max 2 k, le_max_left _ _, by omega, ?_⟩
  rw [grantAlign, toNat_cmpMax, halign]
  exact ((pow_right_mono₀ (show 1 ≤ 2 by decide)).map_max (a := 2)).symm

theorem toNat_grantSize : ∃ padding < 2 ^ 29, decl.grantSize.toNat =
      decl.kernelManagedSize.toNat + padding + decl.grantTSize.toNat := by
  obtain ⟨k, hk, halign⟩ := decl.grantTAlign_eq
  have hpow : 2 ^ k ≤ 2 ^ 29 := Nat.pow_le_pow_right (by decide) hk
  have hone : 1 ≤ 2 ^ k := Nat.one_le_two_pow
  have hentries := decl.entries_le
  have hmanaged := decl.toNat_kernelManagedSize
  have hsize := decl.grantTSize_lt
  have hmask : (decl.grantTAlign - 1).toNat = 2 ^ k - 1 :=
    (Word.toNat_sub_one (halign ▸ hone)).trans (by rw [halign])
  have hpadding : ((decl.grantTAlign - (decl.kernelManagedSize &&&
      (decl.grantTAlign - 1))) &&& (decl.grantTAlign - 1)).toNat < 2 ^ 29 := by
    exact (Nat.and_le_right).trans_lt (by omega)
  refine ⟨_, hpadding, ?_⟩
  rw [grantSize, toNat_add, toNat_add, Nat.mod_add_mod, Nat.mod_eq_of_lt (by omega)]

theorem grantSize_fits : decl.grantSize.toNat + max decl.grantAlign.toNat 2 ≤ 2 ^ 32 := by
  obtain ⟨_, hpadding, hsize⟩ := decl.toNat_grantSize
  obtain ⟨k, -, hk, halign⟩ := decl.toNat_grantAlign
  have hpow : 2 ^ k ≤ 2 ^ 29 := Nat.pow_le_pow_right (by decide) hk
  have hentries := decl.entries_le
  have hmanaged := decl.toNat_kernelManagedSize
  have htsize := decl.grantTSize_lt
  omega

theorem managed_add_data_le : decl.kernelManagedSize.toNat + decl.grantTSize.toNat ≤
      decl.grantSize.toNat := by
  obtain ⟨_, -, hsize⟩ := decl.toNat_grantSize
  omega

end GrantDecl

namespace ProcessStandard

/-! ## Entering and leaving a grant -/

theorem clear_entered_bit {x : Usize} (hclear : ¬ x &&& 1 = 1) : (x ||| 1) &&& ~~~1 = x := by
  have hlowest : x.getLsbD 0 = false := by
    rw [Bool.eq_false_iff]
    intro hset
    apply hclear
    apply BitVec.eq_of_getLsbD_eq
    intro i hi
    rcases Nat.eq_zero_or_pos i with rfl | hpos
    · simp [hset]
    · simp [hpos.ne']
  apply BitVec.eq_of_getLsbD_eq
  intro i hi
  simp only [BitVec.getLsbD_and, BitVec.getLsbD_not]
  rcases Nat.eq_zero_or_pos i with rfl | hpos
  · simpa using hlowest
  · simp [hpos.ne', hi]

/-- Most methods do not look at the table and commute with changing it. -/
def withTable (p : ProcessStandard B) (table : List GrantPointerEntry) : ProcessStandard B :=
  { p with grantPointers := table }

variable {p p' : ProcessStandard B} {table table' : List GrantPointerEntry}

@[simp]
theorem withTable_grantPointers : (p.withTable table).grantPointers = table :=
  rfl

@[simp]
theorem withTable_isRunning : (p.withTable table).isRunning = p.isRunning :=
  rfl

@[simp]
theorem withTable_withTable : (p.withTable table).withTable table' = p.withTable table' :=
  rfl

variable {grantNum : Usize}

theorem leaveGrant_eq {entry : GrantPointerEntry} (hrun : p.isRunning)
    (hentry : p.grantPointers[grantNum.toNat]? = some entry) :
    p.leaveGrant grantNum = p.withTable (p.grantPointers.set grantNum.toNat
      { entry with grantPtr := entry.grantPtr &&& ~~~1 }) := by
  unfold leaveGrant
  rw [hrun, hentry]
  rfl

theorem enterGrant_ok {ptr : Usize} (henter : p.enterGrant grantNum = (.ok ptr, p')) :
    p.isRunning ∧ ∃ entry, p.grantPointers[grantNum.toNat]? = some entry ∧
      entry.grantPtr = ptr ∧ ¬ ptr &&& 1 = 1 ∧ p' = p.withTable (p.grantPointers.set grantNum.toNat
        { entry with grantPtr := ptr ||| 1 }) := by
  unfold enterGrant at henter
  cases hrun : p.isRunning with
  | false => simp [hrun] at henter
  | true =>
    simp only [hrun, Bool.not_true, Bool.false_eq_true, if_false] at henter
    cases hentry : p.grantPointers[grantNum.toNat]? with
    | none => simp [hentry] at henter
    | some entry =>
      simp only [hentry] at henter
      split_ifs at henter with hset
      · cases henter
      · cases henter
        exact ⟨rfl, entry, rfl, rfl, hset, rfl⟩

theorem leaveGrant_of_entered {ptr : Usize}
    (henter : p.enterGrant grantNum = (.ok ptr, p')) {q : ProcessStandard B}
    (hrun : q.isRunning) : (q.withTable p'.grantPointers).leaveGrant grantNum =
      q.withTable p.grantPointers := by
  obtain ⟨-, entry, hentry, rfl, hclear, rfl⟩ := enterGrant_ok henter
  obtain ⟨hlt, hget⟩ := List.getElem?_eq_some_iff.mp hentry
  let marked := p.grantPointers.set grantNum.toNat { entry with grantPtr := entry.grantPtr ||| 1 }
  have hmarked : (q.withTable marked).grantPointers[grantNum.toNat]? =
      some { entry with grantPtr := entry.grantPtr ||| 1 } := by
    simp [marked, hlt]
  have hrunning' : (q.withTable marked).isRunning := hrun
  rw [withTable_grantPointers, leaveGrant_eq hrunning' hmarked]
  simp only [marked, withTable_grantPointers, withTable_withTable,
    List.set_set, clear_entered_bit hclear]
  rw [← hget, List.set_getElem_self]

theorem enqueueTask_outcome (p : ProcessStandard B) (task : Task) : ∃ tasks debug,
      (p.enqueueTask task).2 = { p with tasks := tasks, debug := debug } ∧
      (tasks.toList = p.tasks.toList ∨ p.isRunning ∧ tasks.toList = p.tasks.toList ++ [task]) := by
  have hlist := p.tasks.toList_enqueue task
  unfold enqueueTask
  cases hrun : p.isRunning with
  | false => exact ⟨p.tasks, p.debug, rfl, .inl rfl⟩
  | true =>
    rcases henqueue : p.tasks.enqueue task with ⟨accepted, tasks⟩
    have htasks : tasks.toList = p.tasks.toList ∨ tasks.toList = p.tasks.toList ++ [task] := by
      rw [henqueue] at hlist
      split_ifs at hlist with hroom
      · exact .inr hlist
      · exact .inl hlist
    cases accepted with
    | true => exact ⟨tasks, p.debug, rfl, htasks.imp_right (⟨rfl, ·⟩)⟩
    | false => exact ⟨tasks, _, rfl, htasks.imp_right (⟨rfl, ·⟩)⟩

theorem allocateInGrantRegionInternal_outcome (p : ProcessStandard B) (size align : Usize) :
    (∃ config, p.allocateInGrantRegionInternal size align =
      (none, { p with mpuConfig := config })) ∨
    ∃ config, p.appBreak ≤ p.nextGrantAddress size align ∧
      p.nextGrantAddress size align ≤ p.kernelMemoryBreak ∧
      p.allocateInGrantRegionInternal size align =
        (some (p.nextGrantAddress size align), { p with
          kernelMemoryBreak := p.nextGrantAddress size align
          mpuConfig := config }) := by
  unfold allocateInGrantRegionInternal
  cases hcfg : p.mpuConfig with
  | none => exact .inl ⟨p.mpuConfig, rfl⟩
  | some config =>
    simp only
    rw [← nextGrantAddress]
    by_cases hlow : p.nextGrantAddress size align < p.appBreak
    · rw [if_pos hlow]
      exact .inl ⟨p.mpuConfig, rfl⟩
    rw [if_neg hlow]
    by_cases hhigh : p.nextGrantAddress size align > p.kernelMemoryBreak
    · rw [if_pos hhigh]
      exact .inl ⟨p.mpuConfig, rfl⟩
    rw [if_neg hhigh]
    rcases B.chip.mpu.updateAppMemoryRegion p.appBreak
      (p.nextGrantAddress size align) .readWriteOnly config with ⟨_ | _, -⟩
    · exact .inl ⟨_, rfl⟩
    · exact .inr ⟨_, BitVec.not_lt.mp hlow, BitVec.not_lt.mp hhigh, rfl⟩

theorem enqueueTask_withTable (task : Task) : (p.withTable table).enqueueTask task =
      ((p.enqueueTask task).1, (p.enqueueTask task).2.withTable table) := by
  unfold enqueueTask
  split_ifs with hrun hrunning'
  · rfl
  · exact absurd hrun hrunning'
  · exact absurd ‹_› hrun
  simp only [withTable]
  cases p.tasks.enqueue task with
  | mk accepted tasks => cases accepted <;> rfl

theorem allocateInGrantRegionInternal_withTable (size align : Usize) :
    (p.withTable table).allocateInGrantRegionInternal size align =
      ((p.allocateInGrantRegionInternal size align).1,
        (p.allocateInGrantRegionInternal size align).2.withTable table) := by
  unfold allocateInGrantRegionInternal
  rw [show (p.withTable table).mpuConfig = p.mpuConfig from rfl]
  cases p.mpuConfig with
  | none => rfl
  | some config =>
    simp only
    rw [show (p.withTable table).kernelMemoryBreak = p.kernelMemoryBreak
      from rfl, show (p.withTable table).appBreak = p.appBreak from rfl]
    split_ifs
    · rfl
    · rfl
    · split <;> rfl

theorem addMpuRegion_withTable (start size minSize : Usize) :
    ((p.withTable table).addMpuRegion start size minSize).2 =
      (p.addMpuRegion start size minSize).2.withTable table := by
  unfold addMpuRegion
  rw [show (p.withTable table).mpuConfig = p.mpuConfig from rfl]
  cases p.mpuConfig with
  | none => rfl
  | some config =>
    simp only
    rcases B.chip.mpu.allocateRegion start size minSize .readWriteOnly config
      with ⟨_ | -, -⟩
    · rfl
    rw [show (p.withTable table).mpuRegions = p.mpuRegions from rfl]
    cases p.mpuRegions.findIdx? Option.isNone <;> rfl

theorem enterGrant_error {error : ProcessError}
    (henter : p.enterGrant grantNum = (.error error, p')) : p' = p := by
  unfold enterGrant at henter
  split_ifs at henter
  · cases henter
    rfl
  split at henter
  · cases henter
    rfl
  split_ifs at henter
  · cases henter
    rfl
  · cases henter

/-! ## Closures of capsules -/

theorem schedule_snd (upcall : Upcall) (p : ProcessStandard B) (r0 r1 r2 : Usize) :
    (upcall.schedule p r0 r1 r2).2 = (p.enqueueTask (upcall.task r0 r1 r2)).2 := by
  unfold Upcall.schedule
  split <;> simp_all

def savedUpcall (p : ProcessStandard B) (layout : KernelManagedLayout)
    (driverNum subscribeNum : Usize) : Upcall :=
  let saved := ByteMemory.readPair p.memory (layout.slot .upcall subscribeNum)
  ⟨⟨driverNum, subscribeNum⟩, saved.1, saved.2⟩

theorem scheduleUpcall_snd (layout : KernelManagedLayout)
    (driverNum subscribeNum r0 r1 r2 : Usize) :
    (p.scheduleUpcall layout driverNum subscribeNum r0 r1 r2).2 =
      if subscribeNum < layout.number p.memory .upcall then
        (p.enqueueTask ((p.savedUpcall layout driverNum subscribeNum).task r0 r1 r2)).2
      else p := by
  unfold scheduleUpcall
  split_ifs
  · exact schedule_snd _ _ _ _ _
  · rfl

theorem scheduleUpcall_withTable (layout : KernelManagedLayout)
    (driverNum subscribeNum r0 r1 r2 : Usize) :
    ((p.withTable table).scheduleUpcall layout driverNum subscribeNum r0 r1 r2).2 =
      (p.scheduleUpcall layout driverNum subscribeNum r0 r1 r2).2.withTable table := by
  rw [scheduleUpcall_snd, scheduleUpcall_snd, enqueueTask_withTable,
    show (p.withTable table).memory = p.memory from rfl]
  split_ifs <;> rfl

theorem allocateCustomGrant_withTable (size align : Usize) :
    ((p.withTable table).allocateCustomGrant size align).2 =
      (p.allocateCustomGrant size align).2.withTable table := by
  unfold allocateCustomGrant
  rw [withTable_isRunning, allocateInGrantRegionInternal_withTable]
  split_ifs
  · rfl
  · rcases p.allocateInGrantRegionInternal size align with ⟨_ | -, -⟩ <;> rfl

end ProcessStandard

namespace GrantAction

open ProcessStandard

variable {p : ProcessStandard B} {table : List GrantPointerEntry}
  (decl : GrantDecl) (layout : KernelManagedLayout)

theorem apply_withTable (action : GrantAction) : apply decl layout (p.withTable table) action =
      (apply decl layout p action).withTable table := by
  cases action with
  | scheduleUpcall subscribeNum r0 r1 r2 =>
    exact scheduleUpcall_withTable layout _ _ _ _ _
  | setData bytes => rfl
  | allocate size align => exact allocateCustomGrant_withTable size align

variable (closure : List GrantAction)

theorem foldl_apply_withTable :
    closure.foldl (apply decl layout) (p.withTable table) =
      (closure.foldl (apply decl layout) p).withTable table := by
  induction closure generalizing p with
  | nil => rfl
  | cons action closure ih =>
    rw [List.foldl_cons, apply_withTable, ih, List.foldl_cons]

theorem apply_frame (action : GrantAction) : ∃ tasks debug memory kernelMemoryBreak mpuConfig,
      apply decl layout p action = { p with
        tasks := tasks
        debug := debug
        memory := memory
        kernelMemoryBreak := kernelMemoryBreak
        mpuConfig := mpuConfig } := by
  cases action with
  | scheduleUpcall subscribeNum r0 r1 r2 =>
    simp only [apply, scheduleUpcall_snd]
    split_ifs
    · obtain ⟨tasks, debug, hframe, -⟩ := p.enqueueTask_outcome
        ((p.savedUpcall layout decl.driverNum subscribeNum).task r0 r1 r2)
      exact ⟨tasks, debug, _, _, _, hframe⟩
    · exact ⟨_, _, _, _, _, rfl⟩
  | setData bytes => exact ⟨_, _, _, _, _, rfl⟩
  | allocate size align =>
    simp only [apply, allocateCustomGrant]
    split_ifs
    · exact ⟨_, _, _, _, _, rfl⟩
    rcases p.allocateInGrantRegionInternal_outcome size align with
      ⟨config, hnone⟩ | ⟨config, -, -, hsome⟩
    · rw [hnone]
      exact ⟨_, _, _, _, _, rfl⟩
    · rw [hsome]
      exact ⟨_, _, _, _, _, rfl⟩

theorem isRunning_foldl_apply : (closure.foldl (apply decl layout) p).isRunning = p.isRunning := by
  induction closure generalizing p with
  | nil => rfl
  | cons action closure ih =>
    obtain ⟨_, _, _, _, _, hframe⟩ := apply_frame decl layout action
    rw [List.foldl_cons, ih, hframe]
    rfl

theorem grantPointers_foldl_apply :
    (closure.foldl (apply decl layout) p).grantPointers = p.grantPointers := by
  induction closure generalizing p with
  | nil => rfl
  | cons action closure ih =>
    obtain ⟨_, _, _, _, _, hframe⟩ := apply_frame decl layout action
    rw [List.foldl_cons, ih, hframe]

end GrantAction

namespace ProcessStandard

variable {p p' : ProcessStandard B} {grantNum : Usize}

theorem accessGrant_ok {decl : GrantDecl} {closure : List GrantAction}
    (haccess : p.accessGrant grantNum decl closure = .ok p') :
    p.isRunning ∧ ∃ entry, p.grantPointers[grantNum.toNat]? = some entry ∧
      ¬ entry.grantPtr &&& 1 = 1 ∧ p' = closure.foldl (GrantAction.apply decl
        (.readFromBase p.memory entry.grantPtr grantNum)) p := by
  unfold accessGrant at haccess
  rcases henter : p.enterGrant grantNum with ⟨_ | _, q⟩
  · rw [henter] at haccess
    cases haccess
  rw [henter] at haccess
  cases haccess
  obtain ⟨hrun, entry, hentry, rfl, hclear, hq⟩ := enterGrant_ok henter
  refine ⟨hrun, entry, hentry, hclear, ?_⟩
  let layout := KernelManagedLayout.readFromBase p.memory entry.grantPtr grantNum
  have hmemory : q.memory = p.memory := by rw [hq]; rfl
  have hmarked : q = p.withTable q.grantPointers := by rw [hq]; rfl
  have hfold : closure.foldl (GrantAction.apply decl layout) q =
      (closure.foldl (GrantAction.apply decl layout) p).withTable q.grantPointers := by
    rw [hmarked, GrantAction.foldl_apply_withTable]
    rfl
  rw [hmemory, hfold, leaveGrant_of_entered henter
    ((GrantAction.isRunning_foldl_apply decl layout closure).trans hrun)]
  rw [← GrantAction.grantPointers_foldl_apply decl layout closure]
  rfl

/-! ## Allocating a grant -/

theorem grantIsAllocated_eq_some {allocated : Bool} :
    p.grantIsAllocated grantNum = some allocated ↔ p.isRunning ∧ ∃ entry,
        p.grantPointers[grantNum.toNat]? = some entry ∧ (entry.grantPtr != 0) = allocated := by
  unfold grantIsAllocated
  cases p.isRunning <;> simp

theorem not_entered_of_even {x : Usize} (heven : 2 ∣ x.toNat) : ¬ x &&& 1 = 1 := by
  intro hset
  have htoNat := congrArg BitVec.toNat hset
  rw [BitVec.toNat_and, show BitVec.toNat (1 : Usize) = 1 from rfl, Nat.and_one_is_mod] at htoNat
  omega

theorem enterGrant_of_even {entry : GrantPointerEntry}
    (hrun : p.isRunning) (hentry : p.grantPointers[grantNum.toNat]? = some entry)
    (heven : 2 ∣ entry.grantPtr.toNat) : p.enterGrant grantNum = (.ok entry.grantPtr,
      p.withTable (p.grantPointers.set grantNum.toNat
        { entry with grantPtr := entry.grantPtr ||| 1 })) := by
  unfold enterGrant
  rw [hrun, hentry]
  exact if_neg (not_entered_of_even heven)

theorem four_dvd_nextGrantAddress (decl : GrantDecl)
    (hwrap : p.nextGrantAddress decl.grantSize decl.grantAlign ≤ p.kernelMemoryBreak) :
    4 ∣ (p.nextGrantAddress decl.grantSize decl.grantAlign).toNat := by
  obtain ⟨k, hk, -, halign⟩ := decl.toNat_grantAlign
  have hdvd := (nextGrantAddress_spec halign decl.grantSize_fits hwrap).2
  rw [halign] at hdvd
  exact (Nat.pow_dvd_pow 2 hk).trans hdvd

theorem allocateGrant_outcome (driverNum size align : Usize)
    (hfree : p.grantIsAllocated grantNum = some false) :
    (∃ config, p.allocateGrant grantNum driverNum size align =
      (.error (), { p with mpuConfig := config })) ∨
    ∃ config, (∀ entry ∈ p.grantPointers, entry.grantPtr ≠ 0 → entry.driverNum ≠ driverNum) ∧
      p.appBreak ≤ p.nextGrantAddress size align ∧
      p.nextGrantAddress size align ≤ p.kernelMemoryBreak ∧
      p.allocateGrant grantNum driverNum size align = (.ok (), { p with
        kernelMemoryBreak := p.nextGrantAddress size align
        mpuConfig := config
        grantPointers := p.grantPointers.set grantNum.toNat
          ⟨driverNum, p.nextGrantAddress size align⟩ }) := by
  obtain ⟨hrun, entry, hentry, -⟩ := grantIsAllocated_eq_some.mp hfree
  obtain ⟨hlt, -⟩ := List.getElem?_eq_some_iff.mp hentry
  unfold allocateGrant
  rw [hrun, hfree]
  by_cases hcount : grantNum ≥ B.grantCount
  · rw [if_pos hcount]
    exact .inl ⟨p.mpuConfig, rfl⟩
  rw [if_neg hcount]
  by_cases hexists : (p.grantPointers.any fun entry =>
      entry.grantPtr != 0 && entry.driverNum == driverNum)
  · rw [if_pos hexists]
    exact .inl ⟨p.mpuConfig, rfl⟩
  rw [if_neg hexists]
  have hunused : ∀ entry ∈ p.grantPointers, entry.grantPtr ≠ 0 → entry.driverNum ≠ driverNum := by
    simpa using hexists
  rcases p.allocateInGrantRegionInternal_outcome size align with
    ⟨config, hnone⟩ | ⟨config, hlow, hhigh, hsome⟩
  · rw [hnone]
    exact .inl ⟨config, rfl⟩
  · rw [hsome]
    exact .inr ⟨config, hunused, hlow, hhigh, if_pos hlt⟩

def grantMemory (memory : ByteMemory.Memory 32) (grantPtr : Usize)
    (decl : GrantDecl) : ByteMemory.Memory 32 :=
  ByteMemory.writeBytes (KernelManagedLayout.initializeFromCounts memory grantPtr decl)
    (grantPtr + (decl.grantSize - decl.grantTSize)) decl.grantTSize decl.grantTDefault

theorem newProcessGrant_of_allocateGrant {decl : GrantDecl}
    (hfree : p.grantIsAllocated grantNum = some false) {config : Option B.chip.mpu.MpuConfig}
    (hhigh : p.nextGrantAddress decl.grantSize decl.grantAlign ≤ p.kernelMemoryBreak)
    (hok : p.allocateGrant grantNum decl.driverNum decl.grantSize
      decl.grantAlign = (.ok (), { p with
        kernelMemoryBreak := p.nextGrantAddress decl.grantSize decl.grantAlign
        mpuConfig := config
        grantPointers := p.grantPointers.set grantNum.toNat ⟨decl.driverNum,
          p.nextGrantAddress decl.grantSize decl.grantAlign⟩ })) :
    p.newProcessGrant grantNum decl = (.ok (), { p with
      kernelMemoryBreak := p.nextGrantAddress decl.grantSize decl.grantAlign
      mpuConfig := config
      grantPointers := p.grantPointers.set grantNum.toNat
        ⟨decl.driverNum, p.nextGrantAddress decl.grantSize decl.grantAlign⟩
      memory := grantMemory p.memory
        (p.nextGrantAddress decl.grantSize decl.grantAlign) decl }) := by
  obtain ⟨hrun, _, hentry, -⟩ := grantIsAllocated_eq_some.mp hfree
  obtain ⟨hlt, -⟩ := List.getElem?_eq_some_iff.mp hentry
  let ptr := p.nextGrantAddress decl.grantSize decl.grantAlign
  let q : ProcessStandard B := { p with
    kernelMemoryBreak := ptr
    mpuConfig := config
    grantPointers :=
      p.grantPointers.set grantNum.toNat ⟨decl.driverNum, ptr⟩ }
  have hentry' : q.grantPointers[grantNum.toNat]? = some ⟨decl.driverNum, ptr⟩ := by
    simp [q, hlt]
  have heven : 2 ∣ ptr.toNat := (show 2 ∣ 4 by decide).trans (four_dvd_nextGrantAddress decl hhigh)
  have henter := enterGrant_of_even (p := q) hrun hentry' heven
  have hleave := leaveGrant_of_entered henter (q := { q with
    memory := KernelManagedLayout.initializeFromCounts q.memory ptr decl })
    hrun
  unfold newProcessGrant
  rw [hfree]
  rw [hok]
  simp only
  rw [henter]
  exact congrArg (fun r : ProcessStandard B =>
    ((.ok () : Except ProcessError Unit), { r with
      memory := ByteMemory.writeBytes r.memory
        (ptr + (decl.grantSize - decl.grantTSize)) decl.grantTSize decl.grantTDefault })) hleave

/-- A grant is there already, is refused with its entry kept, or is allocated below the break. -/
theorem newProcessGrant_cases (p : ProcessStandard B) (grantNum : Usize) (decl : GrantDecl) :
    (p.grantIsAllocated grantNum = some true ∧ p.newProcessGrant grantNum decl = (.ok (), p)) ∨
    (∃ error config, p.grantIsAllocated grantNum ≠ some true ∧ p.newProcessGrant grantNum decl =
        (.error error, { p with mpuConfig := config })) ∨
    ∃ config, p.grantIsAllocated grantNum = some false ∧ (∀ entry ∈ p.grantPointers,
        entry.grantPtr ≠ 0 → entry.driverNum ≠ decl.driverNum) ∧
      p.appBreak ≤ p.nextGrantAddress decl.grantSize decl.grantAlign ∧
      p.nextGrantAddress decl.grantSize decl.grantAlign ≤ p.kernelMemoryBreak ∧
      p.newProcessGrant grantNum decl = (.ok (), { p with
        kernelMemoryBreak := p.nextGrantAddress decl.grantSize decl.grantAlign
        mpuConfig := config
        grantPointers := p.grantPointers.set grantNum.toNat
          ⟨decl.driverNum, p.nextGrantAddress decl.grantSize decl.grantAlign⟩
        memory := grantMemory p.memory
          (p.nextGrantAddress decl.grantSize decl.grantAlign) decl }) := by
  cases hallocated : p.grantIsAllocated grantNum with
  | none =>
    refine .inr (.inl ⟨.inactiveApp, p.mpuConfig, by simp, ?_⟩)
    simp [newProcessGrant, hallocated]
  | some allocated =>
    cases allocated with
    | true =>
      refine .inl ⟨rfl, ?_⟩
      simp [newProcessGrant, hallocated]
    | false =>
      rcases allocateGrant_outcome decl.driverNum decl.grantSize decl.grantAlign hallocated with
        ⟨config, herror⟩ | ⟨config, hunused, hlow, hhigh, hok⟩
      · refine .inr (.inl ⟨.outOfMemory, config, by simp, ?_⟩)
        simp [newProcessGrant, hallocated, herror]
      · exact .inr (.inr ⟨config, rfl, hunused, hlow, hhigh,
          newProcessGrant_of_allocateGrant hallocated hhigh hok⟩)

/-! ## Exchanging a saved value -/

theorem lookupGrantFromDriverNum_ok {driverNum grantNum : Usize}
    (hlen : p.grantPointers.length ≤ 2 ^ 32)
    (hlookup : p.lookupGrantFromDriverNum driverNum = .ok grantNum) :
    ∃ entry, p.grantPointers[grantNum.toNat]? = some entry ∧
      entry.grantPtr ≠ 0 ∧ entry.driverNum = driverNum := by
  unfold lookupGrantFromDriverNum at hlookup
  split at hlookup
  · next index hindex =>
      cases hlookup
      obtain ⟨hlt, hmatches, -⟩ := List.findIdx?_eq_some_iff_getElem.mp hindex
      have htoNat : (BitVec.ofNat 32 index).toNat = index := by
        rw [BitVec.toNat_ofNat, Nat.mod_eq_of_lt (by omega)]
      rw [htoNat]
      refine ⟨p.grantPointers[index], List.getElem?_eq_getElem hlt, ?_⟩
      simpa using hmatches
  · cases hlookup

theorem enterGrantKernelManaged_cases (p : ProcessStandard B) (driverNum : Usize) :
    (∃ error, p.enterGrantKernelManaged driverNum = (.error error, p)) ∨
    ∃ grantNum ptr p', p.lookupGrantFromDriverNum driverNum = .ok grantNum ∧
      p.enterGrant grantNum = (.ok ptr, p') ∧ p.enterGrantKernelManaged driverNum =
        (.ok (.readFromBase p'.memory ptr grantNum), p') := by
  unfold enterGrantKernelManaged
  cases hlookup : p.lookupGrantFromDriverNum driverNum with
  | error error => exact .inl ⟨_, rfl⟩
  | ok grantNum =>
    simp only
    rcases p.grantIsAllocated grantNum with _ | _ | _
    · exact .inl ⟨_, rfl⟩
    · exact .inl ⟨_, rfl⟩
    rcases henter : p.enterGrant grantNum with ⟨error | ptr, p'⟩
    · obtain rfl := enterGrant_error henter
      exact .inl ⟨.nomem, rfl⟩
    · exact .inr ⟨grantNum, ptr, p', rfl, henter, rfl⟩

theorem swapSaved_cases (p : ProcessStandard B) (kind : SavedKind)
    (driverNum num : Usize) (new : Usize × Usize) :
    (∃ error, p.swapSaved kind driverNum num new = (.error error, p)) ∨
    ∃ grantNum entry, ∃ layout : KernelManagedLayout, p.isRunning ∧
      p.lookupGrantFromDriverNum driverNum = .ok grantNum ∧
      p.grantPointers[grantNum.toNat]? = some entry ∧
      layout = .readFromBase p.memory entry.grantPtr grantNum ∧
      num < layout.number p.memory kind ∧
      p.swapSaved kind driverNum num new =
        (.ok (ByteMemory.readPair p.memory (layout.slot kind num)), { p with
          memory :=
            ByteMemory.writePair p.memory (layout.slot kind num) new }) := by
  unfold swapSaved
  rcases p.enterGrantKernelManaged_cases driverNum with
    ⟨error, herror⟩ | ⟨grantNum, _, q, hlookup, henter, hok⟩
  · rw [herror]
    exact .inl ⟨error, rfl⟩
  rw [hok]
  obtain ⟨hrun, entry, hentry, rfl, -, hq⟩ := enterGrant_ok henter
  have hmemory : q.memory = p.memory := by rw [hq]; rfl
  have hmarked : q = p.withTable q.grantPointers := by rw [hq]; rfl
  simp only [hmemory]
  let layout := KernelManagedLayout.readFromBase p.memory entry.grantPtr grantNum
  by_cases hnum : num < layout.number p.memory kind
  · rw [if_pos hnum]
    refine .inr ⟨grantNum, entry, layout, hrun, hlookup, hentry, rfl, hnum, ?_⟩
    have hleave := leaveGrant_of_entered henter (q := { p with
      memory := ByteMemory.writePair p.memory (layout.slot kind num) new })
      hrun
    rw [hmarked]
    exact congrArg (Prod.mk _) hleave
  rw [if_neg hnum]
  refine .inl ⟨.nosupport, congrArg (Prod.mk _) ?_⟩
  rw [hmarked]
  exact leaveGrant_of_entered henter hrun

end ProcessStandard

end TockKernel

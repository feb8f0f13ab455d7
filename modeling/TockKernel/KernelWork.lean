import TockKernel.KernelSteps

/-!
# Work of capsules and system call handlers

The walk through the functions of the kernel, first part: whatever the scripts
say, capsules, interprocess communication and the handlers of system calls
take the process table from one state to another by work, without a panic, and
apart from work do at most one exchange.
-/

namespace TockKernel

open ProcessStandard Outcome KernelState Relation

variable {B : Board} {platform : Platform} {rejects panics drops : Prop}
  {s s' : KernelState B} {index : ℕ} {fail : Panic → Prop}

/-! ## Sequences of work -/

def WorkStep (platform : Platform) (drops : Prop) (s s' : KernelState B) : Prop :=
  ∃ index p p', s.processes index = some p ∧
    ProcessWork platform drops p p' ∧ s' = s.setProcess index p'

def Works (platform : Platform) (drops : Prop) : KernelState B → KernelState B → Prop :=
  Relation.ReflTransGen (WorkStep platform drops)

/-- The computation takes the process table from `s` on by work. -/
abbrev OnlyWorks {α : Type} (platform : Platform) (drops : Prop) (fail : Panic → Prop)
    (m : KernelM B α) (s : KernelState B) : Prop :=
  Outcome m (fun _ s' => Works platform drops s s') fail s

def RunningAt (index : ℕ) (s : KernelState B) : Prop :=
  ∀ p, s.processes index = some p → p.isRunning = true

section

variable (h : Works platform drops s s')
include h

theorem Works.reaches : Reaches platform rejects s s' := by
  refine ReflTransGen.mono ?_ _ _ h
  rintro s s' ⟨_, p, _, hp, hwork, rfl⟩
  exact .work hp (hwork.weaken fun _ => trivial)

theorem Works.calm (hcalm : s.All (Calm platform panics)) : s'.All (Calm platform panics) :=
  (show Reaches platform False s s' from h.reaches).calm hcalm

theorem Works.runningAt (hrun : RunningAt index s) : RunningAt index s' := by
  induction h with
  | refl => exact hrun
  | tail _ hstep ih =>
    obtain ⟨other, p, _, hp, hwork, rfl⟩ := hstep
    intro q hq
    by_cases hother : index = other
    · subst hother
      rw [processes_setProcess] at hq
      cases hq
      exact hwork.isRunning.trans (ih p hp)
    · rw [processes_setProcess_of_ne hother] at hq
      exact ih q hq

end

variable {p p' : ProcessStandard B} {α : Type} {default : α}
  {method : ProcessStandard B → α × ProcessStandard B}
  {post : α → KernelState B → Prop} {β : Type} {grantNum : Usize}
  {q : ProcessStandard B}

theorem KernelState.setProcess_self (hp : s.processes index = some p) :
    s.setProcess index p = s := by
  unfold setProcess
  rw [← hp, Function.update_eq_self]

theorem KernelState.setProcess_setProcess (p p' : ProcessStandard B) :
    (s.setProcess index p).setProcess index p' = s.setProcess index p' := by
  unfold setProcess
  rw [Function.update_idem]

theorem works_of_processWork (hp : s.processes index = some p)
    (hwork : ProcessWork platform drops p p') : Works platform drops s (s.setProcess index p') :=
  .single ⟨index, p, p', hp, hwork, rfl⟩

theorem works_of_processWorks (hp : s.processes index = some p)
    (hworks : ReflTransGen (ProcessWork platform drops) p p') :
    Works platform drops s (s.setProcess index p') := by
  induction hworks with
  | refl =>
    rw [setProcess_self hp]
    exact .refl
  | tail _ hwork ih =>
    refine ih.tail ⟨index, _, _, processes_setProcess, hwork, ?_⟩
    rw [setProcess_setProcess]

/-! ## Methods of processes -/

theorem onProcess_of_some (hp : s.processes index = some p)
    (h : post (method p).1 (s.setProcess index (method p).2)) :
    Outcome (onProcess index default method) post fail s := by
  unfold Outcome onProcess
  rw [hp]
  exact h

theorem onProcess_of_none (hp : s.processes index = none) (h : post default s) :
    Outcome (onProcess index default method) post fail s := by
  unfold Outcome onProcess
  rw [hp]
  exact h

theorem onProcess_read {read : ProcessStandard B → α} (h : ∀ a, post a s) :
    Outcome (onProcess index default fun p => (read p, p)) post fail s := by
  cases hp : s.processes index with
  | none => exact onProcess_of_none hp (h default)
  | some p =>
    refine onProcess_of_some hp ?_
    rw [setProcess_self hp]
    exact h (read p)

theorem onProcess_works (hworks : ∀ p, s.processes index = some p →
      ReflTransGen (ProcessWork platform drops) p (method p).2) :
    OnlyWorks platform drops fail (onProcess index default method) s := by
  cases hp : s.processes index with
  | none => exact onProcess_of_none hp .refl
  | some p =>
    exact onProcess_of_some hp (works_of_processWorks hp (hworks p hp))

theorem modifyProcess_works {method : ProcessStandard B → ProcessStandard B}
    (hwork : ∀ p, s.processes index = some p → ProcessWork platform drops p (method p)) :
    OnlyWorks platform drops fail (modifyProcess index method) s :=
  onProcess_works fun p hp => .single (hwork p hp)

theorem works_bind {m : KernelM B α} {f : α → KernelM B β}
    (hm : OnlyWorks platform drops fail m s)
    (hf : ∀ a s', Works platform drops s s' →
      Outcome (f a) (fun _ s'' => Works platform drops s' s'') fail s') :
    OnlyWorks platform drops fail (m >>= f) s := by
  refine bind (hm.mono fun a s' hworks => ?_)
  exact (hf a s' hworks).mono fun _ _ hworks' => hworks.trans hworks'

/-! ## Capsules -/

theorem KernelState.getProcess_eq_some {processId : ProcessId}
    (h : s.getProcess processId = some p) : s.processes processId.index.toNat = some p :=
  (Option.filter_eq_some_iff.mp h).1

theorem newProcessGrant_ok {decl : GrantDecl}
    (hnew : p.newProcessGrant grantNum decl = (.ok (), p')) : p'.isRunning ∧ ∃ entry,
      p'.grantPointers[grantNum.toNat]? = some entry ∧ (entry.grantPtr = 0 → p'.appBreak = 0) := by
  rcases p.newProcessGrant_cases grantNum decl with
    ⟨hallocated, hfound⟩ | ⟨_, _, -, herror⟩ | ⟨_, hfree, -, hlow, -, hfresh⟩
  · obtain ⟨hrun, entry, hentry, hptr⟩ := grantIsAllocated_eq_some.mp hallocated
    rw [hfound] at hnew
    cases hnew
    refine ⟨hrun, entry, hentry, fun hnull => ?_⟩
    simp [hnull] at hptr
  · rw [herror] at hnew
    cases hnew
  obtain ⟨hrun, entry, hentry, -⟩ := grantIsAllocated_eq_some.mp hfree
  obtain ⟨hlt, -⟩ := List.getElem?_eq_some_iff.mp hentry
  rw [hfresh] at hnew
  cases hnew
  refine ⟨hrun, _, List.getElem?_set_self hlt, fun hnull => ?_⟩
  rw [show p.nextGrantAddress decl.grantSize decl.grantAlign = 0 from hnull] at hlow
  exact BitVec.eq_of_toNat_eq (Nat.le_zero.mp (BitVec.le_def.mp hlow))

theorem accessGrant_of_calm (hcalm : p.Calm platform panics)
    (hrun : p.isRunning) {entry : GrantPointerEntry}
    (hentry : p.grantPointers[grantNum.toNat]? = some entry) (decl : GrantDecl)
    (closure : List GrantAction) : ∃ p', p.accessGrant grantNum decl closure = .ok p' := by
  unfold accessGrant
  rw [enterGrant_of_even hrun hentry (hcalm.even entry (List.mem_of_getElem? hentry))]
  exact ⟨_, rfl⟩

theorem enter_works (hcalm : p.Calm platform panics) (grantNum : Usize)
    (closure : List GrantAction) : ∃ result p',
      p.enter grantNum (platform.grants grantNum.toNat) closure = .ok (result, p') ∧
      ReflTransGen (ProcessWork platform drops) p p' := by
  have hnewWork : ProcessWork platform drops p
      (p.newProcessGrant grantNum (platform.grants grantNum.toNat)).2 :=
    .newProcessGrant p grantNum
  have hnewCalm := hcalm.work hnewWork
  unfold enter
  rcases hnew : p.newProcessGrant grantNum (platform.grants grantNum.toNat) with ⟨_ | _, p1⟩
  · rw [hnew] at hnewWork
    exact ⟨_, p1, rfl, .single hnewWork⟩
  rw [hnew] at hnewWork hnewCalm
  obtain ⟨hrun, entry, hentry, hnull⟩ := newProcessGrant_ok hnew
  obtain ⟨p2, haccess⟩ := accessGrant_of_calm hnewCalm hrun hentry
    (platform.grants grantNum.toNat) closure
  have hallocated : ∀ entry, p1.grantPointers[grantNum.toNat]? = some entry →
      entry.grantPtr = 0 → p1.appBreak = 0 := by
    intro entry' hentry'
    obtain rfl := Option.some.inj (hentry.symm.trans hentry')
    exact hnull
  simp only
  rw [haccess]
  exact ⟨_, p2, rfl, .tail (.single hnewWork) (.accessGrant p1 grantNum closure hallocated haccess)⟩

theorem runCapsuleAction_works (hcalm : s.All (Calm platform panics)) (action : CapsuleAction) :
    OnlyWorks platform drops fail (runCapsuleAction platform action) s := by
  cases action with
  | enter grantNum processId closure =>
    simp only [Outcome, runCapsuleAction]
    cases hget : s.getProcess processId with
    | none => exact .refl
    | some p =>
      have hp := getProcess_eq_some hget
      obtain ⟨_, _, henter, hworks⟩ := enter_works (hcalm _ p hp) grantNum closure
      simp only
      rw [henter]
      exact works_of_processWorks hp hworks
  | notify target caller kind =>
    unfold runCapsuleAction
    split_ifs with hipc
    · exact modifyProcess_works fun p _ => .enqueueIpc p caller kind hipc
    · exact pure .refl

/-- Whatever a capsule asks for, the process table moves by work alone. -/
theorem runCapsule_works (hcalm : s.All (Calm platform panics)) (actions : List CapsuleAction) :
    OnlyWorks platform drops fail (runCapsule platform actions) s := by
  induction actions generalizing s with
  | nil => exact pure .refl
  | cons action actions ih =>
    exact works_bind (runCapsuleAction_works hcalm action) fun _ _ hworks => ih (hworks.calm hcalm)

theorem grantAllocatedCount_works : OnlyWorks platform drops fail (grantAllocatedCount index) s :=
  onProcess_read fun _ => .refl

theorem tryAllocateGrant_works (hcalm : s.All (Calm platform panics)) (driver : DriverScript) :
    OnlyWorks platform drops fail (tryAllocateGrant platform driver index) s := by
  refine works_bind grantAllocatedCount_works fun _ s1 h1 => ?_
  refine works_bind (runCapsule_works (h1.calm hcalm) _) fun _ s2 _ => ?_
  refine works_bind grantAllocatedCount_works fun _ s3 _ => ?_
  split
  · split_ifs
    · exact pure .refl
    · exact pure .refl
  · exact pure .refl

/-! ## Interprocess communication -/

theorem enterGrant_of_calm (hcalm : p.Calm platform panics)
    (hrun : p.isRunning) {entry : GrantPointerEntry}
    (hentry : p.grantPointers[grantNum.toNat]? = some entry) : ∃ table, p.enterGrant grantNum =
      (.ok entry.grantPtr, p.withTable table) :=
  ⟨_, enterGrant_of_even hrun hentry (hcalm.even entry (List.mem_of_getElem? hentry))⟩

theorem leaveGrant_entered {ptr : Usize} {table : List GrantPointerEntry}
    (henter : p.enterGrant grantNum = (.ok ptr, p.withTable table)) (hrun : q.isRunning)
    (htable : q.grantPointers = p.grantPointers) : (q.withTable table).leaveGrant grantNum = q := by
  have hleave := leaveGrant_of_entered henter hrun
  rw [withTable_grantPointers, ← htable] at hleave
  exact hleave

theorem scheduleUpcall_frame (layout : KernelManagedLayout)
    (driverNum subscribeNum r0 r1 r2 : Usize) : ∃ tasks debug,
      (p.scheduleUpcall layout driverNum subscribeNum r0 r1 r2).2 =
        { p with tasks := tasks, debug := debug } := by
  rw [scheduleUpcall_snd]
  split_ifs
  · obtain ⟨tasks, debug, hframe, -⟩ := p.enqueueTask_outcome
      ((p.savedUpcall layout driverNum subscribeNum).task r0 r1 r2)
    exact ⟨tasks, debug, hframe⟩
  · exact ⟨_, _, rfl⟩

theorem ipcNotify_outcome (hp : p.Calm platform panics) (hq : q.Calm platform panics)
    (grantNum : Usize) (decl : GrantDecl) (pId qId : Usize) (kind : IpcUpcallType) :
    (∃ error p1, p.newProcessGrant grantNum decl = (.error error, p1) ∧
      ipcNotify grantNum decl p q pId qId kind = .ok (.error error, p1, q)) ∨
    (∃ p1 error q1, p.newProcessGrant grantNum decl = (.ok (), p1) ∧
      q.newProcessGrant grantNum decl = (.error error, q1) ∧
      ipcNotify grantNum decl p q pId qId kind = .ok (.error error, p1, q1)) ∨
    ∃ p1 q1 entry p2 len ptr, p.newProcessGrant grantNum decl = (.ok (), p1) ∧
      q.newProcessGrant grantNum decl = (.ok (), q1) ∧
      p1.grantPointers[grantNum.toNat]? = some entry ∧
      (p2 = p1 ∨ p2 = (p1.addMpuRegion ptr len len).2) ∧
      ipcNotify grantNum decl p q pId qId kind = .ok (.ok (), (p2.scheduleUpcall
          (.readFromBase p1.memory entry.grantPtr grantNum) decl.driverNum
          (kind.toSchedule pId qId) qId len ptr).2, q1) := by
  have hpNew := hp.newProcessGrant grantNum decl
  have hqNew := hq.newProcessGrant grantNum decl
  unfold ipcNotify
  rcases hpGrant : p.newProcessGrant grantNum decl with ⟨error | _, p1⟩
  · exact .inl ⟨error, p1, rfl, rfl⟩
  rw [hpGrant] at hpNew
  obtain ⟨hpRunning, entry, hentry, -⟩ := newProcessGrant_ok hpGrant
  obtain ⟨table, hpEnter⟩ := enterGrant_of_calm hpNew hpRunning hentry
  refine .inr ?_
  simp only
  rw [hpEnter]
  rcases hqGrant : q.newProcessGrant grantNum decl with ⟨error | _, q1⟩
  · refine .inl ⟨p1, error, q1, rfl, rfl, ?_⟩
    simp only
    rw [leaveGrant_entered hpEnter hpRunning rfl]
  rw [hqGrant] at hqNew
  obtain ⟨hqRunning, qEntry, hqEntry, -⟩ := newProcessGrant_ok hqGrant
  obtain ⟨qTable, hqEnter⟩ := enterGrant_of_calm hqNew hqRunning hqEntry
  refine .inr ?_
  simp only
  rw [hqEnter]
  simp only [leaveGrant_entered hqEnter hqRunning rfl]
  -- The grant of the notified process stays entered while its upcall is
  -- scheduled.
  have hleave : ∀ (p2 : ProcessStandard B) (len ptr : Usize),
      (∃ mpuConfig mpuRegions, p2 = { p1 with
        mpuConfig := mpuConfig, mpuRegions := mpuRegions }) →
      ((p2.withTable table).scheduleUpcall
        (.readFromBase p1.memory entry.grantPtr grantNum) decl.driverNum
        (kind.toSchedule pId qId) qId len ptr).2.leaveGrant grantNum =
      (p2.scheduleUpcall (.readFromBase p1.memory entry.grantPtr grantNum) decl.driverNum
        (kind.toSchedule pId qId) qId len ptr).2 := by
    rintro p2 len ptr ⟨mpuConfig, mpuRegions, hp2⟩
    obtain ⟨_, _, hframe⟩ := scheduleUpcall_frame
      (.readFromBase p1.memory entry.grantPtr grantNum) decl.driverNum
      (kind.toSchedule pId qId) qId len ptr
    rw [scheduleUpcall_withTable]
    refine leaveGrant_entered hpEnter ?_ ?_
    · rw [hframe, hp2]
      exact hpRunning
    · rw [hframe, hp2]
  cases (q1.withTable qTable).getReadwriteProcessbuffer
    (.readFromBase (q1.withTable qTable).memory qEntry.grantPtr grantNum) pId with
  | ok slice =>
    refine ⟨p1, q1, entry, _, slice.len, if slice.len = 0 then 0 else
      slice.ptr, rfl, rfl, hentry, .inr rfl, ?_⟩
    simp only [addMpuRegion_withTable]
    exact congrArg (fun r => Except.ok (Except.ok (), r, q1))
      (hleave _ _ _ (p1.addMpuRegion_frame _ _ _))
  | error _ =>
    refine ⟨p1, q1, entry, p1, 0, 0, rfl, rfl, hentry, .inl rfl, ?_⟩
    exact congrArg (fun r => Except.ok (Except.ok (), r, q1)) (hleave p1 0 0 ⟨_, _, rfl⟩)

variable (drops) in
theorem ipcNotify_works (hp : p.Calm platform panics)
    (hq : q.Calm platform panics) (grantNum pId qId : Usize) (kind : IpcUpcallType) :
    ∃ result p' q', ipcNotify grantNum (platform.grants grantNum.toNat) p q pId qId kind =
        .ok (result, p', q') ∧ ReflTransGen (ProcessWork platform drops) p p' ∧
      ReflTransGen (ProcessWork platform drops) q q' := by
  have hpWork : ProcessWork platform drops p
      (p.newProcessGrant grantNum (platform.grants grantNum.toNat)).2 :=
    .newProcessGrant p grantNum
  have hqWork : ProcessWork platform drops q
      (q.newProcessGrant grantNum (platform.grants grantNum.toNat)).2 :=
    .newProcessGrant q grantNum
  rcases ipcNotify_outcome hp hq grantNum (platform.grants grantNum.toNat) pId qId kind with
    ⟨error, p1, hpGrant, hnotify⟩ | ⟨p1, error, q1, hpGrant, hqGrant, hnotify⟩ |
      ⟨p1, q1, entry, p2, len, ptr, hpGrant, hqGrant, hentry, hp2, hnotify⟩
  · rw [hpGrant] at hpWork
    exact ⟨_, _, _, hnotify, .single hpWork, .refl⟩
  · rw [hpGrant] at hpWork
    rw [hqGrant] at hqWork
    exact ⟨_, _, _, hnotify, .single hpWork, .single hqWork⟩
  have hcalm1 := hp.work hpWork
  rw [hpGrant] at hpWork hcalm1
  rw [hqGrant] at hqWork
  refine ⟨_, _, _, hnotify, .trans (.single hpWork) ?_, .single hqWork⟩
  obtain ⟨hrun, entry', hentry', hnull⟩ := newProcessGrant_ok hpGrant
  obtain rfl := Option.some.inj (hentry.symm.trans hentry')
  -- Adding a region leaves the grants as they are.
  have hquiet : ReflTransGen (ProcessWork platform drops) p1 p2 := by
    rcases hp2 with rfl | rfl
    · exact .refl
    · exact .single (.quiet (.addMpuRegion p1 ptr len len))
  obtain ⟨config, regions, hframe⟩ : ∃ mpuConfig mpuRegions, p2 =
      { p1 with mpuConfig := mpuConfig, mpuRegions := mpuRegions } := by
    rcases hp2 with rfl | rfl
    · exact ⟨_, _, rfl⟩
    · exact p1.addMpuRegion_frame ptr len len
  refine hquiet.tail ?_
  have hrunning2 : p2.isRunning := by rw [hframe]; exact hrun
  have htable : p2.grantPointers = p1.grantPointers := by rw [hframe]
  have hcalm2 : p2.Calm platform panics := by
    rw [hframe]
    exact hcalm1.of_same rfl rfl rfl rfl
  have hentry2 : p2.grantPointers[grantNum.toNat]? = some entry := by
    rw [htable]
    exact hentry
  let closure := [GrantAction.scheduleUpcall (kind.toSchedule pId qId) qId len ptr]
  obtain ⟨p3, haccess⟩ := accessGrant_of_calm hcalm2 hrunning2 hentry2
    (platform.grants grantNum.toNat) closure
  obtain ⟨-, entry'', hentry'', -, rfl⟩ := accessGrant_ok haccess
  obtain rfl := Option.some.inj (hentry2.symm.trans hentry'')
  have hmemory : p2.memory = p1.memory := by rw [hframe]
  rw [hmemory] at haccess
  refine .accessGrant p2 grantNum closure ?_ haccess
  intro entry' hentry' hnull'
  obtain rfl := Option.some.inj (hentry2.symm.trans hentry')
  rw [hframe]
  exact hnull hnull'

theorem ipcScheduleUpcall_works (hcalm : s.All (Calm platform panics))
    (grantNum : Usize) (scheduleOn calledFrom : ProcessId) (kind : IpcUpcallType) :
    OnlyWorks platform drops fail
      (ipcScheduleUpcall platform grantNum scheduleOn calledFrom kind) s := by
  simp only [Outcome, ipcScheduleUpcall]
  cases hp : s.getProcess scheduleOn with
  | none => exact .refl
  | some p =>
    cases hq : s.getProcess calledFrom with
    | none => exact .refl
    | some q =>
      simp only
      split_ifs with hsame
      · exact .refl
      have hp := getProcess_eq_some hp
      have hq := getProcess_eq_some hq
      obtain ⟨_, _, _, hnotify, hpWorks, hqWorks⟩ :=
        ipcNotify_works drops (hcalm _ p hp) (hcalm _ q hq)
          grantNum scheduleOn.index calledFrom.index kind
      rw [hnotify]
      have hne : calledFrom.index.toNat ≠ scheduleOn.index.toNat :=
        fun heq => hsame (BitVec.eq_of_toNat_eq heq.symm)
      refine (works_of_processWorks hp hpWorks).trans (works_of_processWorks ?_ hqWorks)
      rw [processes_setProcess_of_ne hne]
      exact hq

/-! ## System calls -/

theorem debug_works (p : ProcessStandard B) (debug : ProcessStandardDebug) :
    ReflTransGen (ProcessWork platform drops) p { p with debug := debug } :=
  .single (.quiet (.debug p debug))

theorem memop_works (p : ProcessStandard B) (opType r1 : Usize) :
    ReflTransGen (ProcessWork platform drops) p (memop p opType r1).2 := by
  have hbrk : ∀ newBreak, ReflTransGen (ProcessWork platform drops) p
      (p.brk newBreak).2 := fun newBreak => .single (.quiet (.brk p newBreak))
  unfold memop
  split
  · have hnew := hbrk r1
    generalize p.brk r1 = outcome at hnew
    rcases outcome with ⟨_ | _, p'⟩ <;> exact hnew
  · rw [sbrk_eq_brk]
    have hnew := hbrk (p.appBreak + r1)
    generalize p.brk (p.appBreak + r1) = outcome at hnew
    rcases outcome with ⟨_ | _, p'⟩ <;> exact hnew
  · exact .refl
  · exact .refl
  · exact .refl
  · exact .refl
  · exact .refl
  · exact .refl
  · simp only
    split_ifs <;> exact .refl
  · simp only
    split_ifs <;> exact .refl
  · simp only [updateStackStartPointer]
    split_ifs
    · exact debug_works p _
    · exact .refl
  · simp only [updateHeapStartPointer]
    split_ifs
    · exact debug_works p _
    · exact .refl
  · exact .refl

theorem setState_works (hrun : p.isRunning) {state : State}
    (hstate : { p with state := state }.isRunning) : ReflTransGen (ProcessWork platform drops) p
      { p with state := state } :=
  .single (.quiet (.state p state hrun hstate))

theorem isRunning_of_running (hstate : p.state = .running) : p.isRunning := by
  unfold isRunning
  rw [hstate]

theorem setYieldedState_works (p : ProcessStandard B) :
    ReflTransGen (ProcessWork platform drops) p p.setYieldedState := by
  unfold setYieldedState
  split_ifs with hstate
  · exact setState_works (isRunning_of_running hstate) rfl
  · exact .refl

theorem setYieldedForState_works (p : ProcessStandard B) (upcallId : UpcallId) :
    ReflTransGen (ProcessWork platform drops) p (p.setYieldedForState upcallId) := by
  unfold setYieldedForState
  split_ifs with hstate
  · exact setState_works (isRunning_of_running hstate) rfl
  · exact .refl

theorem handleYield_works (which paramA paramB : Usize) :
    OnlyWorks platform drops fail (handleYield index which paramA paramB) s := by
  unfold handleYield
  split
  · refine works_bind (onProcess_read fun _ => .refl) fun hasTasks s1 _ => ?_
    refine works_bind (modifyProcess_works fun p _ =>
      .quiet (.setByte p paramA _)) fun _ s2 _ => ?_
    split_ifs
    · exact onProcess_works fun p _ => setYieldedState_works p
    · exact pure .refl
  · exact onProcess_works fun p _ => setYieldedState_works p
  · exact onProcess_works fun p _ => setYieldedForState_works p _
  · exact pure .refl

section

variable (hcalm : s.All (Calm platform panics)) (driver : Option DriverScript)
include hcalm driver

theorem handleCommand_works : OnlyWorks platform drops fail (handleCommand platform driver) s := by
  cases driver with
  | none => exact pure .refl
  | some driver =>
    exact works_bind (runCapsule_works hcalm _) fun _ _ _ => pure .refl

theorem handleUserspaceReadableAllow_works (allowAddress allowSize : Usize) :
    OnlyWorks platform drops fail
      (handleUserspaceReadableAllow platform index driver allowAddress allowSize) s := by
  cases driver with
  | none => exact pure .refl
  | some driver =>
    refine works_bind (onProcess_works fun p _ => .single (.quiet
      (.buildReadwriteProcessBuffer p allowAddress allowSize))) fun built s1 h1 => ?_
    cases built with
    | error allowError => exact pure .refl
    | ok pbuf =>
      refine works_bind (runCapsule_works (h1.calm hcalm) _) fun _ s2 _ => ?_
      split
      all_goals exact pure .refl

end

/-! ## Exchanges -/

def Exchanged (index : ℕ) (key : SavedKey) (new old : Usize × Usize)
    (s s' : KernelState B) : Prop :=
  ∃ p p', s.processes index = some p ∧
    p.swapSaved key.kind key.driverNum key.num new = (.ok old, p') ∧ s' = s.setProcess index p'

def SwapTried {β : Type} (words : β → Usize × Usize) (index : ℕ) (key : SavedKey) (value : β)
    (s : KernelState B) (result : Except (β × ErrorCode) β) (s' : KernelState B) : Prop :=
  (∃ err, result = .error (value, err) ∧ s' = s) ∨
  ∃ old, result = .ok old ∧ Exchanged index key (words value) (words old) s s'

theorem onProcess_swapSaved (words : β → Usize × Usize) (key : SavedKey) (value : β)
    {swap : ProcessStandard B → Except (β × ErrorCode) β × ProcessStandard B}
    (herror : ∀ p error p', p.swapSaved key.kind key.driverNum key.num (words value) =
      (.error error, p') → swap p = (.error (value, error), p'))
    (hok : ∀ p old p', p.swapSaved key.kind key.driverNum key.num (words value) = (.ok old, p') →
      ∃ value', words value' = old ∧ swap p = (.ok value', p')) :
    Outcome (onProcess index (.error (value, .fail)) swap)
      (SwapTried words index key value s) fail s := by
  cases hp : s.processes index with
  | none => exact onProcess_of_none hp (.inl ⟨.fail, rfl, rfl⟩)
  | some p =>
    refine onProcess_of_some hp ?_
    rcases hswap : p.swapSaved key.kind key.driverNum key.num (words value) with ⟨error | old, p'⟩
    · obtain rfl : p' = p := by
        rcases p.swapSaved_cases key.kind key.driverNum key.num (words value)
          with ⟨_, hcase⟩ | ⟨_, _, _, -, -, -, -, -, hcase⟩
        · rw [hcase] at hswap
          cases hswap
          rfl
        · rw [hcase] at hswap
          cases hswap
      rw [herror _ _ _ hswap, setProcess_self hp]
      exact .inl ⟨error, rfl, rfl⟩
    obtain ⟨value', rfl, hvalue⟩ := hok _ _ _ hswap
    rw [hvalue]
    exact .inr ⟨value', rfl, p, p', hp, hswap, rfl⟩

def Upcall.words (upcall : Upcall) : Usize × Usize :=
  (upcall.appdata, upcall.fnPtr)

def ProcessBuffer.words (buffer : ProcessBuffer) : Usize × Usize :=
  (buffer.ptr, buffer.len)

theorem subscribe_outcome (upcall : Upcall) : Outcome (onProcess index (.error (upcall, .fail))
        fun p => p.subscribe upcall)
      (SwapTried Upcall.words index ⟨.upcall, upcall.upcallId.driverNum,
        upcall.upcallId.subscribeNum⟩ upcall s) fail s := by
  refine onProcess_swapSaved Upcall.words ⟨.upcall, _, _⟩ upcall ?_ ?_
  · intro p error p' hswap
    unfold subscribe
    rw [show p.swapSaved .upcall upcall.upcallId.driverNum
      upcall.upcallId.subscribeNum (upcall.appdata, upcall.fnPtr) = _ from hswap]
  · rintro p ⟨appdata, fnPtr⟩ p' hswap
    refine ⟨⟨upcall.upcallId, appdata, fnPtr⟩, rfl, ?_⟩
    unfold subscribe
    rw [show p.swapSaved .upcall upcall.upcallId.driverNum
      upcall.upcallId.subscribeNum (upcall.appdata, upcall.fnPtr) = _ from hswap]

theorem allow_outcome (kind : SavedKind) (driverNum allowNum : Usize) (buffer : ProcessBuffer) :
    Outcome (onProcess index (.error (buffer, .fail))
        fun p => p.allow kind driverNum allowNum buffer)
      (SwapTried ProcessBuffer.words index ⟨kind, driverNum, allowNum⟩ buffer s) fail s := by
  refine onProcess_swapSaved ProcessBuffer.words ⟨kind, _, _⟩ buffer ?_ ?_
  · intro p error p' hswap
    unfold allow
    rw [show p.swapSaved kind driverNum allowNum (buffer.ptr, buffer.len) = _ from hswap]
  · rintro p ⟨ptr, len⟩ p' hswap
    refine ⟨⟨ptr, len, p'.processId⟩, rfl, ?_⟩
    unfold allow
    rw [show p.swapSaved kind driverNum allowNum (buffer.ptr, buffer.len) = _ from hswap]

variable (drops) in
theorem swapOrAllocate_outcome {words : β → Usize × Usize} {key : SavedKey} {value : β}
    {swap : β → KernelM B (Except (β × ErrorCode) β)}
    (hswap : ∀ s : KernelState B, Outcome (swap value) (SwapTried words index key value s) fail s)
    (hcalm : s.All (Calm platform panics)) (driver : DriverScript) :
    Outcome (swapOrAllocate platform driver index swap value)
      (fun result s' => ∃ s1, Works platform drops s s1 ∧
        SwapTried words index key value s1 result s') fail s := by
  unfold swapOrAllocate
  refine bind ((hswap s).mono fun result s1 hfirst => ?_)
  rcases hfirst with ⟨err, rfl, rfl⟩ | ⟨old, rfl, hexchanged⟩
  · cases err
    case nomem =>
      refine bind ((tryAllocateGrant_works hcalm driver).mono
        fun allocated s2 (hworks : Works platform drops _ s2) => ?_)
      cases allocated with
      | noAllocation | sameAllocation =>
        exact pure ⟨s2, hworks, .inl ⟨_, rfl, rfl⟩⟩
      | newAllocation =>
        exact (hswap s2).mono fun result s3 hsecond => ⟨s2, hworks, hsecond⟩
    all_goals exact pure ⟨_, .refl, .inl ⟨_, rfl, rfl⟩⟩
  · exact pure ⟨s, .refl, .inr ⟨old, rfl, hexchanged⟩⟩

/-- The handler fails and hands the words of the call back, or exchanges them.
-/
def ExchangeHandled (platform : Platform) (drops : Prop) (index : ℕ) (key : SavedKey)
    (new : Usize × Usize) (s : KernelState B) (rval : SyscallReturn) (s' : KernelState B) : Prop :=
  ∃ s1, Works platform drops s s1 ∧ ((∃ err, rval = key.kind.failure err new ∧ s' = s1) ∨
      ∃ old, rval = key.kind.success old ∧ Exchanged index key new old s1 s')

section

variable (hcalm : s.All (Calm platform panics)) (driver : Option DriverScript)
include hcalm driver

theorem handleSubscribe_outcome (driverNumber subdriverNumber upcallPtr appdata : Usize) :
    Outcome (handleSubscribe platform index driver driverNumber subdriverNumber upcallPtr appdata)
      (ExchangeHandled platform drops index
        ⟨.upcall, driverNumber, subdriverNumber⟩ (appdata, upcallPtr) s) fail s := by
  refine bind (onProcess_read fun valid => ?_)
  split_ifs
  · exact pure ⟨s, .refl, .inl ⟨.inval, rfl, rfl⟩⟩
  cases driver with
  | none => exact pure ⟨s, .refl, .inl ⟨.nodevice, rfl, rfl⟩⟩
  | some driver =>
    refine bind ((swapOrAllocate_outcome drops (fun s => subscribe_outcome _) hcalm driver).mono
      fun result s' houtcome => ?_)
    rcases houtcome with
      ⟨s1, hworks, ⟨err, rfl, rfl⟩ | ⟨_, rfl, hexchanged⟩⟩
    · exact pure ⟨s', hworks, .inl ⟨err, rfl, rfl⟩⟩
    · exact pure ⟨s1, hworks, .inr ⟨_, rfl, hexchanged⟩⟩

theorem handleAllow_outcome
    {build : ProcessStandard B → Usize → Usize → Except ErrorCode ProcessBuffer × ProcessStandard B}
    (hwork : ∀ p start size, QuietWork p (build p start size).2)
    (hbuilt : ∀ p start size buffer p', build p start size = (.ok buffer, p') →
      buffer.words = (start, size))
    (kind : SavedKind) {success : Usize → Usize → SyscallReturn}
    (hsuccess : ∀ ptr len, success ptr len = kind.success (ptr, len))
    {failure : ErrorCode → Usize → Usize → SyscallReturn}
    (hfailure : ∀ err ptr len, failure err ptr len = kind.failure err (ptr, len))
    (driverNumber subdriverNumber allowAddress allowSize : Usize) :
    Outcome (handleAllow platform index driver build kind success failure
        driverNumber subdriverNumber allowAddress allowSize) (ExchangeHandled platform drops index
        ⟨kind, driverNumber, subdriverNumber⟩ (allowAddress, allowSize) s) fail s := by
  cases driver with
  | none => exact pure ⟨s, .refl, .inl ⟨.nodevice, hfailure .., rfl⟩⟩
  | some driver =>
    have hbuild : Outcome (onProcess index (.error .fail) fun p =>
        build p allowAddress allowSize)
        (fun built s1 => Works platform drops s s1 ∧ ∀ pbuf, built = .ok pbuf →
            pbuf.words = (allowAddress, allowSize)) fail s := by
      cases hp : s.processes index with
      | none =>
        refine onProcess_of_none hp ⟨.refl, fun pbuf hok => ?_⟩
        cases hok
      | some p =>
        refine onProcess_of_some hp ⟨works_of_processWork hp
          (.quiet (hwork p _ _)), fun pbuf hok => ?_⟩
        exact hbuilt p _ _ pbuf (build p allowAddress allowSize).2 (Prod.ext hok rfl)
    refine bind (hbuild.mono fun built s1 hbuilt => ?_)
    obtain ⟨h1, hwords⟩ := hbuilt
    cases built with
    | error allowError =>
      exact pure ⟨s1, h1, .inl ⟨allowError, hfailure .., rfl⟩⟩
    | ok pbuf =>
      have hwords := hwords pbuf rfl
      refine bind ((swapOrAllocate_outcome drops
        (fun s => allow_outcome kind _ _ _) (h1.calm hcalm) driver).mono
        fun result s' houtcome => ?_)
      rcases houtcome with
        ⟨s2, hworks, ⟨err, rfl, rfl⟩ | ⟨_, rfl, hexchanged⟩⟩
      · refine pure ⟨s', h1.trans hworks, .inl ⟨err, ?_, rfl⟩⟩
        rw [hfailure, ← hwords]
        rfl
      · rw [hwords] at hexchanged
        exact pure ⟨s2, h1.trans hworks, .inr ⟨_, hsuccess .., hexchanged⟩⟩

variable (driverNumber subdriverNumber allowAddress allowSize : Usize)

theorem handleReadWriteAllow_outcome :
    Outcome (handleReadWriteAllow platform index driver driverNumber
        subdriverNumber allowAddress allowSize) (ExchangeHandled platform drops index
        ⟨.allowRw, driverNumber, subdriverNumber⟩ (allowAddress, allowSize) s) fail s := by
  refine handleAllow_outcome hcalm driver
    (fun p start size => .buildReadwriteProcessBuffer p start size) ?_ .allowRw
    (fun _ _ => rfl) (fun _ _ _ => rfl) driverNumber subdriverNumber allowAddress allowSize
  intro p start size buffer p' hbuild
  unfold buildReadwriteProcessBuffer at hbuild
  split_ifs at hbuild with _ hsize
  all_goals cases hbuild
  · rw [hsize]
    rfl
  · rfl

theorem handleReadOnlyAllow_outcome :
    Outcome (handleReadOnlyAllow platform index driver driverNumber
        subdriverNumber allowAddress allowSize) (ExchangeHandled platform drops index
        ⟨.allowRo, driverNumber, subdriverNumber⟩ (allowAddress, allowSize) s) fail s := by
  refine handleAllow_outcome hcalm driver
    (fun p start size => .buildReadonlyProcessBuffer p start size) ?_ .allowRo
    (fun _ _ => rfl) (fun _ _ _ => rfl) driverNumber subdriverNumber allowAddress allowSize
  intro p start size buffer p' hbuild
  unfold buildReadonlyProcessBuffer at hbuild
  split_ifs at hbuild with _ hsize
  all_goals cases hbuild
  · rw [hsize]
    rfl
  all_goals rfl

end

end TockKernel

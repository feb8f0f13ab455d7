import TockKernel.Kernel
import TockKernel.GrantOps

/-!
# What the kernel does to processes

Everything that a run of the kernel does to the process table is a sequence of
steps of a few kinds: work, the end of an incarnation, a restart, an exchange of
a value kept in a grant, and entries of the log. Invariants are proved for each
kind of step; the walk through the functions of the kernel is made once.
-/

namespace TockKernel

open ByteMemory ProcessStandard

variable {B : Board}

/-! ## Work -/

/-- Changes to a process that leave its tasks, its grants and what is stored in
them alone. -/
inductive QuietWork : ProcessStandard B → ProcessStandard B → Prop
  | debug (p : ProcessStandard B) (debug : ProcessStandardDebug) :
      QuietWork p { p with debug := debug }
  | storedState (p : ProcessStandard B) (storedState : B.chip.ukb.StoredState) :
      QuietWork p { p with storedState := storedState }
  | state (p : ProcessStandard B) (state : State) (hrunning : p.isRunning = true)
      (hstate : { p with state := state }.isRunning = true) : QuietWork p { p with state := state }
  | writeAppMemory (p : ProcessStandard B) (stores : Stores) : QuietWork p (p.writeAppMemory stores)
  | setByte (p : ProcessStandard B) (addr : Usize) (value : BitVec 8) :
      QuietWork p (p.setByte addr value).2
  | setupMpu (p : ProcessStandard B) : QuietWork p p.setupMpu
  | addMpuRegion (p : ProcessStandard B) (start size minSize : Usize) :
      QuietWork p (p.addMpuRegion start size minSize).2
  | brk (p : ProcessStandard B) (newBreak : Usize) : QuietWork p (p.brk newBreak).2
  | buildReadwriteProcessBuffer (p : ProcessStandard B) (bufStartAddr size : Usize) :
      QuietWork p (p.buildReadwriteProcessBuffer bufStartAddr size).2
  | buildReadonlyProcessBuffer (p : ProcessStandard B) (bufStartAddr size : Usize) :
      QuietWork p (p.buildReadonlyProcessBuffer bufStartAddr size).2

/-- The changes that are neither an exchange of a saved value nor the beginning
or end of an incarnation. Tasks are dropped only if `drops`. -/
inductive ProcessWork (platform : Platform) (drops : Prop) :
    ProcessStandard B → ProcessStandard B → Prop
  | quiet {p p' : ProcessStandard B} (hquiet : QuietWork p p') : ProcessWork platform drops p p'
  | dropTasks (p : ProcessStandard B) (tasks : RingBuffer Task callbackLen)
      (hdrops : drops) (hsublist : tasks.toList.Sublist p.tasks.toList) :
      ProcessWork platform drops p { p with tasks := tasks }
  | enqueueIpc (p : ProcessStandard B) (caller : ProcessId)
      (kind : IpcUpcallType) (hipc : platform.ipc.isSome = true) :
      ProcessWork platform drops p (p.enqueueTask (.ipc caller kind)).2
  | newProcessGrant (p : ProcessStandard B) (grantNum : Usize) : ProcessWork platform drops p
        (p.newProcessGrant grantNum (platform.grants grantNum.toNat)).2
  | accessGrant (p : ProcessStandard B) {p' : ProcessStandard B}
      (grantNum : Usize) (closure : List GrantAction)
      (hallocated : ∀ entry, p.grantPointers[grantNum.toNat]? = some entry →
        entry.grantPtr = 0 → p.appBreak = 0)
      (haccess : p.accessGrant grantNum (platform.grants grantNum.toNat) closure = .ok p') :
      ProcessWork platform drops p p'

namespace ProcessStandard

variable (p : ProcessStandard B)

theorem brk_frame (newBreak : Usize) : ∃ appBreak mpuConfig, (p.brk newBreak).2 =
      { p with appBreak := appBreak, mpuConfig := mpuConfig } := by
  unfold brk
  split
  · exact ⟨_, _, rfl⟩
  split
  · exact ⟨_, _, rfl⟩
  split
  · exact ⟨_, _, rfl⟩
  split
  · exact ⟨_, _, rfl⟩
  split <;> exact ⟨_, _, rfl⟩

theorem buildReadwriteProcessBuffer_frame (bufStartAddr size : Usize) : ∃ allowHighWaterMark,
      (p.buildReadwriteProcessBuffer bufStartAddr size).2 =
        { p with allowHighWaterMark := allowHighWaterMark } := by
  rcases p.buildReadwriteProcessBuffer_cases bufStartAddr size with
    ⟨_, h⟩ | h | ⟨-, -, -, h⟩
  all_goals exact ⟨_, congrArg Prod.snd h⟩

theorem buildReadonlyProcessBuffer_frame (bufStartAddr size : Usize) : ∃ allowHighWaterMark,
      (p.buildReadonlyProcessBuffer bufStartAddr size).2 =
        { p with allowHighWaterMark := allowHighWaterMark } := by
  rcases p.buildReadonlyProcessBuffer_cases bufStartAddr size with
    ⟨_, h⟩ | h | ⟨-, -, -, h⟩ | ⟨-, -, -, -, h⟩
  all_goals exact ⟨_, congrArg Prod.snd h⟩

theorem addMpuRegion_frame (start size minSize : Usize) : ∃ mpuConfig mpuRegions,
      (p.addMpuRegion start size minSize).2 =
        { p with mpuConfig := mpuConfig, mpuRegions := mpuRegions } := by
  unfold addMpuRegion
  split
  · exact ⟨_, _, rfl⟩
  split
  · exact ⟨_, _, rfl⟩
  · simp only
    split <;> exact ⟨_, _, rfl⟩

theorem setByte_frame (addr : Usize) (value : BitVec 8) :
    ∃ memory, (p.setByte addr value).2 = { p with memory := memory } ∧
      AgreeOn p.memory memory p.appBreak.toNat (2 ^ 32) := by
  unfold setByte
  split_ifs with howned
  · refine ⟨_, rfl, fun x hx _ => Function.update_of_ne ?_ _ _⟩
    rintro rfl
    obtain ⟨-, hbelow⟩ := inAppOwnedMemory_iff.mp howned
    change x.toNat + 1 ≤ _ at hbelow
    omega
  · exact ⟨_, rfl, .refl _ _ _⟩

theorem writeAppMemory_agree (stores : Stores) : AgreeOn p.memory (p.writeAppMemory stores).memory
      p.kernelMemoryBreak.toNat (2 ^ 32) := by
  intro x hx _
  refine if_neg fun hwithin => ?_
  have hlt := BitVec.lt_def.mp hwithin.2
  omega

end ProcessStandard

structure ProcessStandard.SameTasksAndGrants (p p' : ProcessStandard B) : Prop where
  isRunning : p'.isRunning = p.isRunning
  faultPolicy : p'.faultPolicy = p.faultPolicy
  tasks : p'.tasks = p.tasks
  grantPointers : p'.grantPointers = p.grantPointers
  kernelMemoryBreak : p'.kernelMemoryBreak = p.kernelMemoryBreak
  memory : AgreeOn p.memory p'.memory (max p.appBreak.toNat p.kernelMemoryBreak.toNat) (2 ^ 32)

variable {p p' : ProcessStandard B} {platform : Platform}

theorem QuietWork.same (h : QuietWork p p') : p.SameTasksAndGrants p' := by
  have hmemory := AgreeOn.refl p.memory (max p.appBreak.toNat p.kernelMemoryBreak.toNat) (2 ^ 32)
  cases h with
  | debug _ | storedState _ | setupMpu => exact ⟨rfl, rfl, rfl, rfl, rfl, hmemory⟩
  | state state hrun hstate =>
    exact ⟨hstate.trans hrun.symm, rfl, rfl, rfl, rfl, hmemory⟩
  | writeAppMemory stores =>
    exact ⟨rfl, rfl, rfl, rfl, rfl, (p.writeAppMemory_agree stores).mono (le_max_right _ _) le_rfl⟩
  | setByte addr value =>
    obtain ⟨_, hframe, hagree⟩ := p.setByte_frame addr value
    rw [hframe]
    exact ⟨rfl, rfl, rfl, rfl, rfl, hagree.mono (le_max_left _ _) le_rfl⟩
  | addMpuRegion start size minSize =>
    obtain ⟨_, _, hframe⟩ := p.addMpuRegion_frame start size minSize
    rw [hframe]
    exact ⟨rfl, rfl, rfl, rfl, rfl, hmemory⟩
  | brk newBreak =>
    obtain ⟨_, _, hframe⟩ := p.brk_frame newBreak
    rw [hframe]
    exact ⟨rfl, rfl, rfl, rfl, rfl, hmemory⟩
  | buildReadwriteProcessBuffer bufStartAddr size =>
    obtain ⟨_, hframe⟩ := p.buildReadwriteProcessBuffer_frame bufStartAddr size
    rw [hframe]
    exact ⟨rfl, rfl, rfl, rfl, rfl, hmemory⟩
  | buildReadonlyProcessBuffer bufStartAddr size =>
    obtain ⟨_, hframe⟩ := p.buildReadonlyProcessBuffer_frame bufStartAddr size
    rw [hframe]
    exact ⟨rfl, rfl, rfl, rfl, rfl, hmemory⟩

theorem ProcessWork.weaken {drops drops' : Prop}
    (h : ProcessWork platform drops p p') (hdrops : drops → drops') :
    ProcessWork platform drops' p p' := by
  cases h with
  | quiet hquiet => exact .quiet hquiet
  | dropTasks tasks hd hsublist => exact .dropTasks p tasks (hdrops hd) hsublist
  | enqueueIpc caller kind hipc => exact .enqueueIpc p caller kind hipc
  | newProcessGrant grantNum => exact .newProcessGrant p grantNum
  | accessGrant grantNum closure hallocated haccess =>
    exact .accessGrant p grantNum closure hallocated haccess

theorem ProcessWork.isRunning {drops : Prop} (h : ProcessWork platform drops p p') :
    p'.isRunning = p.isRunning := by
  cases h with
  | quiet hquiet => exact hquiet.same.isRunning
  | dropTasks _ _ _ => rfl
  | enqueueIpc caller kind _ =>
    obtain ⟨_, _, hframe, -⟩ := p.enqueueTask_outcome (.ipc caller kind)
    rw [hframe]
    rfl
  | newProcessGrant grantNum =>
    rcases p.newProcessGrant_cases grantNum (platform.grants grantNum.toNat) with
      ⟨-, h⟩ | ⟨_, _, -, h⟩ | ⟨_, -, -, -, -, h⟩
    · rw [h]
    · rw [h]
      rfl
    · rw [h]
      rfl
  | accessGrant grantNum closure _ haccess =>
    obtain ⟨-, _, -, -, rfl⟩ := accessGrant_ok haccess
    exact GrantAction.isRunning_foldl_apply _ _ closure

/-! ## Steps of the kernel -/

structure SavedKey where
  kind : SavedKind
  driverNum : Usize
  num : Usize
  deriving DecidableEq, Repr

/-- The two words that a subscribe or allow call passes, as they are stored,
and where. -/
def Syscall.exchange? : Syscall → Option (SavedKey × (Usize × Usize))
  | .subscribe driverNumber subdriverNumber upcallPtr appdata =>
    some (⟨.upcall, driverNumber, subdriverNumber⟩, (appdata, upcallPtr))
  | .readWriteAllow driverNumber subdriverNumber allowAddress allowSize =>
    some (⟨.allowRw, driverNumber, subdriverNumber⟩, (allowAddress, allowSize))
  | .readOnlyAllow driverNumber subdriverNumber allowAddress allowSize =>
    some (⟨.allowRo, driverNumber, subdriverNumber⟩, (allowAddress, allowSize))
  | _ => none

namespace SavedKind

def success : SavedKind → Usize × Usize → SyscallReturn
  | .upcall, (appdata, fnPtr) => .subscribeSuccess fnPtr appdata
  | .allowRo, (ptr, len) => .allowReadOnlySuccess ptr len
  | .allowRw, (ptr, len) => .allowReadWriteSuccess ptr len

def failure (err : ErrorCode) : SavedKind → Usize × Usize → SyscallReturn
  | .upcall, (appdata, fnPtr) => .subscribeFailure err fnPtr appdata
  | .allowRo, (ptr, len) => .allowReadOnlyFailure err ptr len
  | .allowRw, (ptr, len) => .allowReadWriteFailure err ptr len

end SavedKind

def SavedKey.clearPending (key : SavedKey) (p : ProcessStandard B) : ProcessStandard B :=
  match key.kind with
  | .upcall => p.removePendingUpcalls ⟨key.driverNum, key.num⟩
  | .allowRo | .allowRw => p

/-- The steps of the kernel. Calls that exchange values are rejected by the
system call filter only if `rejects`. -/
inductive KernelStep (platform : Platform) (rejects : Prop) : KernelState B → KernelState B → Prop
  | work {s : KernelState B} {index : ℕ} {p p' : ProcessStandard B}
      (hp : s.processes index = some p) (hwork : ProcessWork platform True p p') :
      KernelStep platform rejects s (s.setProcess index p')
  | terminate {s : KernelState B} {index : ℕ} {p : ProcessStandard B}
      (hp : s.processes index = some p) (completionCode : Option (BitVec 32)) :
      KernelStep platform rejects s (s.setProcess index (p.terminate completionCode))
  | fault {s : KernelState B} {index : ℕ} {p : ProcessStandard B}
      (hp : s.processes index = some p) : KernelStep platform rejects s
        (s.setProcess index { p.terminate none with state := .faulted })
  | restart {s : KernelState B} {index : ℕ} {p : ProcessStandard B}
      (hp : s.processes index = some p) (hstopped : p.isRunning = false) :
      KernelStep platform rejects s (KernelState.record
        { s.setProcess index (p.resetToYielded s.kernel).1 with
          kernel := (p.resetToYielded s.kernel).2 } (.restarted index))
  | exchange {s : KernelState B} {index : ℕ} {p p' : ProcessStandard B}
      {syscall : Syscall} {key : SavedKey} {new old : Usize × Usize}
      (hp : s.processes index = some p)
      (hsyscall : syscall.exchange? = some (key, new))
      (hswap : p.swapSaved key.kind key.driverNum key.num new = (.ok old, p')) :
      KernelStep platform rejects s ((s.setProcess index (key.clearPending p')).record
          (.handled index syscall (key.kind.success old)))
  | refuse {s : KernelState B} {syscall : Syscall} {key : SavedKey}
      {new : Usize × Usize} (index : ℕ) (err : ErrorCode)
      (hsyscall : syscall.exchange? = some (key, new)) :
      KernelStep platform rejects s (s.record (.handled index syscall (key.kind.failure err new)))
  | reject {s : KernelState B} (index : ℕ) (syscall : Syscall)
      (err : ErrorCode) (hrejects : rejects) : KernelStep platform rejects s
        (s.record (.handled index syscall (.failure err)))
  | handle {s : KernelState B} {syscall : Syscall} (index : ℕ)
      (rval : SyscallReturn) (hsyscall : syscall.exchange? = none) : KernelStep platform rejects s
        (s.record (.handled index syscall rval))
  | functionCall {s : KernelState B} {index : ℕ} {p : ProcessStandard B}
      {call : FunctionCall} (hp : s.processes index = some p)
      (hhead : p.tasks.toList.head? = some (.functionCall call)) :
      KernelStep platform rejects s ((s.setProcess index p.dequeueTask.2).record
          (.functionCall index call))
  | switchTo {s : KernelState B} {index : ℕ} {p : ProcessStandard B}
      (hp : s.processes index = some p) (hstate : p.state = .running) :
      KernelStep platform rejects s (s.record (.switchedTo index p.state))

def Reaches (platform : Platform) (rejects : Prop) : KernelState B → KernelState B → Prop :=
  Relation.ReflTransGen (KernelStep platform rejects)

/-! ## Processes that are not running have nothing to do -/

/-- A process that is not running has no tasks and no grants, IPC tasks are
queued only if there is IPC, no grant is left entered, and the fault policy
asks for a panic only if `panics`. -/
structure ProcessStandard.Calm (platform : Platform) (panics : Prop)
    (p : ProcessStandard B) : Prop where
  idle : p.isRunning = false → p.tasks.toList = []
  cleared : p.isRunning = false → ∀ entry ∈ p.grantPointers, entry.grantPtr = 0
  ipc : ∀ caller kind, Task.ipc caller kind ∈ p.tasks.toList → platform.ipc.isSome = true
  even : ∀ entry ∈ p.grantPointers, 2 ∣ entry.grantPtr.toNat
  policy : ∀ count, p.faultPolicy count = .panic → panics

namespace ProcessStandard

variable {platform : Platform} {panics drops : Prop}
  {p p' : ProcessStandard B}

section

variable (h : p.Calm platform panics)
include h

theorem Calm.of_same (hrun : p'.isRunning = p.isRunning)
    (htasks : p'.tasks.toList = p.tasks.toList) (htable : p'.grantPointers = p.grantPointers)
    (hpolicy : p'.faultPolicy = p.faultPolicy) : p'.Calm platform panics where
  idle := by
    rw [hrun, htasks]
    exact h.idle
  cleared := by
    rw [hrun, htable]
    exact h.cleared
  ipc := by
    rw [htasks]
    exact h.ipc
  even := by
    rw [htable]
    exact h.even
  policy := by
    rw [hpolicy]
    exact h.policy

theorem Calm.dropTasks {tasks : RingBuffer Task callbackLen}
    (hsublist : tasks.toList.Sublist p.tasks.toList) :
    { p with tasks := tasks }.Calm platform panics where
  idle hstopped := by
    have hempty := h.idle hstopped
    rw [hempty] at hsublist
    exact List.eq_nil_of_sublist_nil hsublist
  cleared := h.cleared
  ipc caller kind hmem := h.ipc caller kind (hsublist.subset hmem)
  even := h.even
  policy := h.policy

theorem Calm.enqueueTask {task : Task}
    (hipc : ∀ caller kind, task = .ipc caller kind → platform.ipc.isSome) :
    (p.enqueueTask task).2.Calm platform panics := by
  obtain ⟨_, _, hframe, hsame | ⟨hrun, happend⟩⟩ := p.enqueueTask_outcome task
  · rw [hframe]
    exact h.of_same rfl hsame rfl rfl
  rw [hframe]
  refine ⟨fun hstopped => ?_, h.cleared, fun caller kind hmem => ?_, h.even, h.policy⟩
  · exact absurd (hrun.symm.trans hstopped) (by decide)
  · simp only [happend, List.mem_append, List.mem_singleton] at hmem
    exact hmem.elim (h.ipc caller kind) fun heq => hipc caller kind heq.symm

theorem Calm.newProcessGrant (grantNum : Usize) (decl : GrantDecl) :
    (p.newProcessGrant grantNum decl).2.Calm platform panics := by
  rcases p.newProcessGrant_cases grantNum decl with
    ⟨-, hfound⟩ | ⟨_, _, -, herror⟩ | ⟨_, hfree, -, -, hwrap, hnew⟩
  · rw [hfound]
    exact h
  · rw [herror]
    exact h.of_same rfl rfl rfl rfl
  rw [hnew]
  obtain ⟨hrun, -⟩ := grantIsAllocated_eq_some.mp hfree
  refine ⟨fun hstopped => ?_, fun hstopped => ?_, h.ipc, ?_, h.policy⟩
  · exact absurd (hrun.symm.trans hstopped) (by decide)
  · exact absurd (hrun.symm.trans hstopped) (by decide)
  · intro entry hmem
    rcases List.mem_or_eq_of_mem_set hmem with hold | rfl
    · exact h.even entry hold
    · exact (show 2 ∣ 4 by decide).trans (four_dvd_nextGrantAddress decl hwrap)

theorem Calm.apply (decl : GrantDecl) (layout : KernelManagedLayout) (action : GrantAction) :
    (GrantAction.apply decl layout p action).Calm platform panics := by
  cases action with
  | scheduleUpcall subscribeNum r0 r1 r2 =>
    simp only [GrantAction.apply, scheduleUpcall_snd]
    split_ifs
    · refine h.enqueueTask fun caller kind htask => ?_
      unfold Upcall.task at htask
      split_ifs at htask
    · exact h
  | setData bytes => exact h.of_same rfl rfl rfl rfl
  | allocate size align =>
    simp only [GrantAction.apply, allocateCustomGrant]
    split_ifs
    · exact h
    rcases p.allocateInGrantRegionInternal_outcome size align with
      ⟨_, hnone⟩ | ⟨_, -, -, hsome⟩
    · rw [hnone]
      exact h.of_same rfl rfl rfl rfl
    · rw [hsome]
      exact h.of_same rfl rfl rfl rfl

theorem Calm.foldl_apply (decl : GrantDecl) (layout : KernelManagedLayout)
    (closure : List GrantAction) :
    (closure.foldl (GrantAction.apply decl layout) p).Calm platform panics := by
  induction closure generalizing p with
  | nil => exact h
  | cons action closure ih => exact ih (h.apply decl layout action)

theorem Calm.work (hwork : ProcessWork platform drops p p') : p'.Calm platform panics := by
  cases hwork with
  | quiet hquiet =>
    have hsame := hquiet.same
    exact h.of_same hsame.isRunning (by rw [hsame.tasks]) hsame.grantPointers hsame.faultPolicy
  | dropTasks tasks _ hsublist => exact h.dropTasks hsublist
  | enqueueIpc caller kind hipc => exact h.enqueueTask fun _ _ _ => hipc
  | newProcessGrant grantNum => exact h.newProcessGrant grantNum _
  | accessGrant grantNum closure _ haccess =>
    obtain ⟨-, _, -, -, rfl⟩ := accessGrant_ok haccess
    exact h.foldl_apply _ _ closure

theorem Calm.terminate (completionCode : Option (BitVec 32)) :
    (p.terminate completionCode).Calm platform panics := by
  rcases p.terminate_cases completionCode with
    ⟨-, -, hsame⟩ | ⟨-, hterm⟩
  · rw [hsame]
    exact h
  rw [hterm]
  refine ⟨fun _ => p.tasks.toList_empty, fun _ entry hmem => ?_,
    fun caller kind hmem => ?_, fun entry hmem => ?_, h.policy⟩
  · obtain ⟨_, -, rfl⟩ := List.mem_map.mp hmem
    rfl
  · simp at hmem
  · obtain ⟨_, -, rfl⟩ := List.mem_map.mp hmem
    exact ⟨0, rfl⟩

end

theorem resetAs_outcome (p : ProcessStandard B)
    (hstopped : p.isRunning = false) (identifier : Usize) :
    (p.resetAs identifier).2.grantPointers = p.grantPointers ∧
      (p.resetAs identifier).2.faultPolicy = p.faultPolicy ∧ ((p.resetAs identifier).1 ≠ .ok () ∧
          (p.resetAs identifier).2.isRunning = false ∧ (p.resetAs identifier).2.tasks = p.tasks ∨
        (p.resetAs identifier).2.isRunning ∧ ∃ q : ProcessStandard B,
            (p.resetAs identifier).2.tasks.toList = p.tasks.toList ∨
            (p.resetAs identifier).2.tasks.toList = p.tasks.toList ++ [q.initTask]) := by
  unfold resetAs
  simp only
  cases hcfg : (p.newIncarnation identifier).mpuConfig with
  | none => exact ⟨rfl, rfl, .inl ⟨by simp, hstopped, rfl⟩⟩
  | some config =>
    simp only
    cases (p.newIncarnation identifier).reallocate config with
    | error error => exact ⟨rfl, rfl, .inl ⟨by simp, hstopped, rfl⟩⟩
    | ok block =>
      obtain ⟨start, len, config'⟩ := block
      unfold initializeAgain
      simp only
      split
      · exact ⟨rfl, rfl, .inl ⟨by simp, hstopped, rfl⟩⟩
      next storedState _ =>
      let q : ProcessStandard B :=
        { (p.newIncarnation identifier).relayOut start len config' with
          storedState := storedState
          restartCount := p.restartCount + 1
          state := .yielded }
      obtain ⟨tasks, _, hframe, htasks⟩ := q.enqueueTask_outcome q.initTask
      change (q.enqueueTask q.initTask).2.grantPointers = _ ∧
        (q.enqueueTask q.initTask).2.faultPolicy = _ ∧
        (_ ∧ (q.enqueueTask q.initTask).2.isRunning = _ ∧ (q.enqueueTask q.initTask).2.tasks = _ ∨
          (q.enqueueTask q.initTask).2.isRunning = _ ∧
            ∃ _, (q.enqueueTask q.initTask).2.tasks.toList = _ ∨
              (q.enqueueTask q.initTask).2.tasks.toList = _)
      rw [hframe]
      exact ⟨rfl, rfl, .inr ⟨rfl, q, htasks.imp_right And.right⟩⟩

theorem resetToYielded_outcome (p : ProcessStandard B)
    (hstopped : p.isRunning = false) (kernel : Kernel) :
    (p.resetToYielded kernel).1.grantPointers = p.grantPointers ∧
      (p.resetToYielded kernel).1.faultPolicy = p.faultPolicy ∧
      ((p.resetToYielded kernel).1.isRunning = false ∧ (p.resetToYielded kernel).1.tasks = p.tasks ∨
        (p.resetToYielded kernel).1.isRunning ∧ ∃ q : ProcessStandard B,
            (p.resetToYielded kernel).1.tasks.toList = p.tasks.toList ∨
            (p.resetToYielded kernel).1.tasks.toList = p.tasks.toList ++ [q.initTask]) := by
  have houtcome := p.resetAs_outcome hstopped kernel.processIdentifierMax
  unfold resetToYielded reset Kernel.createProcessIdentifier
  simp only
  rcases hreset : p.resetAs kernel.processIdentifierMax with ⟨result, _⟩
  rw [hreset] at houtcome
  obtain ⟨htable, hpolicy, htasks⟩ := houtcome
  cases result with
  | ok _ =>
    rcases htasks with ⟨hfailed, -⟩ | ⟨-, hrun⟩
    · exact absurd rfl hfailed
    · exact ⟨htable, hpolicy, .inr ⟨rfl, hrun⟩⟩
  | error error => exact ⟨htable, hpolicy, htasks.imp_left And.right⟩

theorem Calm.resetToYielded (h : p.Calm platform panics)
    (hstopped : p.isRunning = false) (kernel : Kernel) :
    (p.resetToYielded kernel).1.Calm platform panics := by
  obtain ⟨htable, hpolicy, ⟨hstopped', htasks⟩ | ⟨hrun, q, htasks⟩⟩ :=
    p.resetToYielded_outcome hstopped kernel
  · exact h.of_same (hstopped'.trans hstopped.symm) (by rw [htasks]) htable hpolicy
  refine ⟨fun hstopped' => ?_, fun hstopped' => ?_,
    fun caller kind hmem => ?_, htable ▸ h.even, hpolicy ▸ h.policy⟩
  · exact absurd (hrun.symm.trans hstopped') (by decide)
  · exact absurd (hrun.symm.trans hstopped') (by decide)
  · rw [h.idle hstopped] at htasks
    rcases htasks with htasks | htasks
    · simp [htasks] at hmem
    · simp [htasks, initTask] at hmem

theorem Calm.clearPending (h : p.Calm platform panics) (key : SavedKey) :
    (key.clearPending p).Calm platform panics := by
  unfold SavedKey.clearPending
  split
  · refine h.dropTasks ?_
    rw [RingBuffer.toList_retain]
    exact List.filter_sublist
  · exact h
  · exact h

theorem Calm.swapSaved (h : p.Calm platform panics) {kind : SavedKind} {driverNum num : Usize}
    {new old : Usize × Usize} (hswap : p.swapSaved kind driverNum num new = (.ok old, p')) :
    p'.Calm platform panics := by
  rcases p.swapSaved_cases kind driverNum num new with
    ⟨_, herror⟩ | ⟨_, _, _, -, -, -, -, -, hok⟩
  · rw [herror] at hswap
    cases hswap
  rw [hok] at hswap
  cases hswap
  exact h.of_same rfl rfl rfl rfl

end ProcessStandard

namespace KernelState

variable {s s' : KernelState B} {index : ℕ} {p : ProcessStandard B}

@[simp]
theorem processes_setProcess : (s.setProcess index p).processes index = some p :=
  Function.update_self ..

theorem processes_setProcess_of_ne {other : ℕ} (hne : other ≠ index) :
    (s.setProcess index p).processes other = s.processes other :=
  Function.update_of_ne hne ..

def All (s : KernelState B) (property : ProcessStandard B → Prop) : Prop :=
  ∀ index p, s.processes index = some p → property p

theorem All.setProcess {property : ProcessStandard B → Prop}
    (h : s.All property) (hp : property p) : (s.setProcess index p).All property := by
  intro other q hq
  by_cases hne : other = index
  · subst hne
    rw [processes_setProcess] at hq
    cases hq
    exact hp
  · rw [processes_setProcess_of_ne hne] at hq
    exact h other q hq

end KernelState

theorem KernelStep.calm {rejects panics : Prop} {s s' : KernelState B}
    (hstep : KernelStep platform rejects s s') (h : s.All (Calm platform panics)) :
    s'.All (Calm platform panics) := by
  cases hstep with
  | work hp hwork => exact h.setProcess ((h _ _ hp).work hwork)
  | terminate hp completionCode =>
    exact h.setProcess ((h _ _ hp).terminate completionCode)
  | fault hp =>
    refine h.setProcess (((h _ _ hp).terminate none).of_same ?_ rfl rfl rfl)
    exact (terminate_isRunning _ none).symm
  | restart hp hstopped =>
    exact h.setProcess ((h _ _ hp).resetToYielded hstopped _)
  | exchange hp _ hswap =>
    exact h.setProcess (((h _ _ hp).swapSaved hswap).clearPending _)
  | refuse _ _ _ | reject _ _ _ _ | handle _ _ _ | switchTo _ _ => exact h
  | functionCall hp _ =>
    refine h.setProcess ((h _ _ hp).dropTasks ?_)
    rw [RingBuffer.toList_dequeue]
    exact List.tail_sublist _

theorem Reaches.calm {rejects panics : Prop} {s s' : KernelState B}
    (hreaches : Reaches platform rejects s s') (h : s.All (Calm platform panics)) :
    s'.All (Calm platform panics) := by
  induction hreaches with
  | refl => exact h
  | tail _ hstep ih => exact hstep.calm ih

end TockKernel

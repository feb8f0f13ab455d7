import TockKernel.KernelWork

/-!
# Runs of the kernel are made of steps

The walk through the functions of the kernel, second part: faults, restarts,
the dispatch of system calls and the loop that runs processes. Each of them
goes from one state to another by steps of `KernelStep`. The only panic is
that of a fault policy that asks for one.
-/

namespace TockKernel

open ProcessStandard Outcome KernelState RingBuffer

variable {B : Board} {platform : Platform} {rejects panics : Prop}
  {s s' : KernelState B} {index : ℕ}

def PolicyPanic (panics : Prop) (panic : Panic) : Prop :=
  panic = .processFault ∧ panics

/-- A computation that goes on by steps of the kernel and stops with no other
panic than that of a fault policy. -/
def Runs {α : Type} (platform : Platform) (rejects panics : Prop)
    (m : KernelM B α) (s : KernelState B) : Prop :=
  Outcome m (fun _ s' => Reaches platform rejects s s') (PolicyPanic panics) s

variable {α : Type} {m : KernelM B α} {p p' : ProcessStandard B}
  {s0 : KernelState B} {syscall : Syscall} {key : SavedKey} {drops : Prop}

theorem Runs.of_works (drops : Prop) (h : OnlyWorks platform drops (PolicyPanic panics) m s) :
    Runs platform rejects panics m s :=
  h.mono fun _ _ hworks => hworks.reaches

theorem Runs.pure (a : α) : Runs platform rejects panics (Pure.pure a : KernelM B α) s :=
  Outcome.pure .refl

theorem Runs.of_reaches (s0 : KernelState B) (hreaches : Reaches platform rejects s0 s)
    (h : Runs platform rejects panics m s) : Outcome m (fun _ s' => Reaches platform rejects s0 s')
      (PolicyPanic panics) s :=
  h.mono fun _ _ hreaches' => hreaches.trans hreaches'

theorem Runs.bind {f : α → KernelM B β} (hm : Runs platform rejects panics m s)
    (hf : ∀ a s', Reaches platform rejects s s' → Runs platform rejects panics (f a) s') :
    Runs platform rejects panics (m >>= f) s :=
  Outcome.bind (hm.mono fun a s' hreaches =>
    (hf a s' hreaches).of_reaches s hreaches)

theorem modifyProcess_runs {method : ProcessStandard B → ProcessStandard B}
    (h : ∀ p, s.processes index = some p →
      Reaches platform rejects s (s.setProcess index (method p))) :
    Runs platform rejects panics (modifyProcess index method) s := by
  cases hp : s.processes index with
  | none => exact onProcess_of_none hp .refl
  | some p => exact onProcess_of_some hp (h p hp)

/-! ## Faults and restarts -/

def KernelState.commit (s : KernelState B) (index : ℕ) (p : ProcessStandard B)
    (kernel : Kernel) : KernelState B :=
  if kernel.processIdentifierMax = s.kernel.processIdentifierMax then
    { s.setProcess index p with kernel := kernel }
  else
    KernelState.record { s.setProcess index p with kernel := kernel } (.restarted index)

theorem onLifecycle_outcome
    {method : ProcessStandard B → Kernel → Except Panic (ProcessStandard B × Kernel)}
    {post : Unit → KernelState B → Prop} {fail : Panic → Prop}
    (hnone : s.processes index = none → post () s)
    (herror : ∀ p panic, s.processes index = some p → method p s.kernel = .error panic → fail panic)
    (hok : ∀ p p' kernel, s.processes index = some p → method p s.kernel = .ok (p', kernel) →
      post () (s.commit index p' kernel)) : Outcome (onLifecycle index method) post fail s := by
  simp only [Outcome, onLifecycle]
  cases hp : s.processes index with
  | none => exact hnone hp
  | some p =>
    simp only
    cases hmethod : method p s.kernel with
    | error panic => exact herror p panic hp hmethod
    | ok result =>
      have hpost := hok p result.1 result.2 hp hmethod
      unfold commit at hpost
      simp only
      split_ifs at hpost ⊢
      · exact hpost
      · exact hpost

theorem KernelState.commit_same (p : ProcessStandard B) :
    s.commit index p s.kernel = s.setProcess index p :=
  if_pos rfl

theorem KernelState.commit_setProcess (p p' : ProcessStandard B) (kernel : Kernel) :
    (s.setProcess index p).commit index p' kernel = s.commit index p' kernel := by
  unfold commit
  rw [setProcess_setProcess]
  rfl

theorem resetToYielded_kernel (p : ProcessStandard B) (kernel : Kernel) :
    (p.resetToYielded kernel).2.processIdentifierMax = kernel.processIdentifierMax + 1 := by
  unfold resetToYielded reset Kernel.createProcessIdentifier
  simp only
  rcases p.resetAs kernel.processIdentifierMax with ⟨_ | _, _⟩ <;> rfl

section

variable (hp : s.processes index = some p)
include hp

theorem reaches_resetToYielded (hstopped : p.isRunning = false) :
    Reaches platform rejects s (s.commit index (p.resetToYielded s.kernel).1
      (p.resetToYielded s.kernel).2) := by
  have hnew : ¬ (p.resetToYielded s.kernel).2.processIdentifierMax =
      s.kernel.processIdentifierMax := by
    rw [resetToYielded_kernel]
    simp
  unfold commit
  rw [if_neg hnew]
  exact .single (.restart hp hstopped)

theorem reaches_tryRestart (completionCode : Option (BitVec 32)) :
    Reaches platform rejects s (s.commit index (p.tryRestart completionCode s.kernel).1
      (p.tryRestart completionCode s.kernel).2) := by
  unfold tryRestart
  split_ifs
  · rw [commit_same, setProcess_self hp]
    exact .refl
  refine .head (.terminate hp completionCode) ?_
  rw [← commit_setProcess (p.terminate completionCode)]
  exact reaches_resetToYielded processes_setProcess (terminate_isRunning p completionCode)

theorem reaches_start :
    Reaches platform rejects s (s.commit index (p.start s.kernel).1 (p.start s.kernel).2) := by
  unfold start
  split_ifs with hstate
  · rw [commit_same, setProcess_self hp]
    exact .refl
  refine reaches_resetToYielded hp ?_
  unfold isRunning
  rw [not_not.mp hstate]

theorem reaches_setFaultState {kernel : Kernel}
    (hfault : p.setFaultState s.kernel = .ok (p', kernel)) :
    Reaches platform rejects s (s.commit index p' kernel) := by
  unfold ProcessStandard.setFaultState at hfault
  split at hfault
  · cases hfault
  · obtain ⟨rfl, rfl⟩ := Prod.mk.inj (Except.ok.inj hfault)
    exact reaches_tryRestart hp none
  cases hfault
  rw [commit_same]
  exact .single (.fault hp)

end

theorem setFaultState_panic {kernel : Kernel} {panic : Panic} (hcalm : p.Calm platform panics)
    (hfault : p.setFaultState kernel = .error panic) : PolicyPanic panics panic := by
  unfold ProcessStandard.setFaultState at hfault
  split at hfault
  · next hpolicy =>
      cases hfault
      exact ⟨rfl, hcalm.policy _ hpolicy⟩
  · cases hfault
  · cases hfault

theorem setFaultState_runs (hcalm : s.All (Calm platform panics)) :
    Runs platform rejects panics (setFaultState index) s :=
  onLifecycle_outcome (fun _ => .refl)
    (fun p _ hp hfault => setFaultState_panic (hcalm index p hp) hfault)
    (fun _ _ _ hp hfault => reaches_setFaultState hp hfault)

theorem tryRestart_runs (completionCode : Option (BitVec 32)) :
    Runs platform rejects panics (onLifecycle index fun p kernel =>
      .ok (p.tryRestart completionCode kernel)) s := by
  refine onLifecycle_outcome (fun _ => .refl) (fun p panic _ herror => ?_)
    (fun p p' kernel hp hok => ?_)
  · cases herror
  · obtain ⟨rfl, rfl⟩ := Prod.mk.inj (Except.ok.inj hok)
    exact reaches_tryRestart hp completionCode

theorem start_runs : Runs platform rejects panics (onLifecycle index fun p kernel =>
      .ok (p.start kernel)) s := by
  refine onLifecycle_outcome (fun _ => .refl) (fun p panic _ herror => ?_)
    (fun p p' kernel hp hok => ?_)
  · cases herror
  · obtain ⟨rfl, rfl⟩ := Prod.mk.inj (Except.ok.inj hok)
    exact reaches_start hp

/-! ## Returning to a process -/

section

variable (hcalm : s.All (Calm platform panics)) (hrun : RunningAt index s)
include hcalm hrun

theorem runIfAccepted_runs
    {method : ProcessStandard B → Kernel → Except Panic (ProcessStandard B × Kernel)}
    (hmethod : ∀ p, ∃ outcome, method p = p.runIfAccepted outcome) :
    Runs platform rejects panics (onLifecycle index method) s := by
  refine onLifecycle_outcome (fun _ => .refl) (fun p panic hp herror => ?_)
    (fun p p' kernel hp hok => ?_)
  · obtain ⟨⟨_ | _, storedState⟩, houtcome⟩ := hmethod p
    · rw [houtcome] at herror
      have hcalm' : { p with storedState := storedState }.Calm platform panics :=
        (hcalm index p hp).of_same rfl rfl rfl rfl
      exact setFaultState_panic hcalm' herror
    · rw [houtcome] at herror
      cases herror
  · obtain ⟨⟨_ | _, storedState⟩, houtcome⟩ := hmethod p
    all_goals
      rw [houtcome] at hok
      have hstored : ProcessWork platform True p { p with storedState := storedState } :=
        .quiet (.storedState p storedState)
    · refine .head (.work hp hstored) ?_
      rw [← commit_setProcess { p with storedState := storedState }]
      exact reaches_setFaultState processes_setProcess hok
    · cases hok
      rw [commit_same]
      exact (works_of_processWorks hp (.tail (.single hstored)
        (.quiet (.state { p with storedState := storedState } .running (hrun p hp) rfl)))).reaches

theorem setSyscallReturnValue_runs (rval : SyscallReturn) (stores : Stores) :
    Runs platform rejects panics (setSyscallReturnValue index rval stores) s := by
  have hstores : OnlyWorks platform False (PolicyPanic panics)
      (modifyProcess index fun p => p.writeAppMemory stores) s :=
    modifyProcess_works fun p _ => .quiet (.writeAppMemory p stores)
  refine bind (hstores.mono fun _ s1 hworks => ?_)
  exact (runIfAccepted_runs (hworks.calm hcalm) (hworks.runningAt hrun)
    fun p => ⟨_, rfl⟩).of_reaches s hworks.reaches

theorem setProcessFunction_runs {call : FunctionCall} (hp : s.processes index = some p)
    (hhead : p.tasks.toList.head? = some (.functionCall call)) (stores : Stores) :
    Outcome (setProcessFunction index call stores)
      (fun _ s' => Reaches platform rejects s s') (PolicyPanic panics)
      (s.setProcess index p.dequeueTask.2) := by
  have hstep : KernelStep platform rejects s ((s.setProcess index p.dequeueTask.2).record
        (.functionCall index call)) := .functionCall hp hhead
  have hcalm1 := hstep.calm hcalm
  have hrunning1 : RunningAt index ((s.setProcess index p.dequeueTask.2).record
        (.functionCall index call)) := by
    intro q hq
    cases processes_setProcess.symm.trans hq
    exact hrun p hp
  have hstores : Outcome (modifyProcess index fun p => p.writeAppMemory stores)
      (fun _ s' => Works platform False ((s.setProcess index
        p.dequeueTask.2).record (.functionCall index call)) s') (PolicyPanic panics) _ :=
    modifyProcess_works fun p _ => .quiet (.writeAppMemory p stores)
  refine bind (modify (bind (hstores.mono fun _ s1 hworks => ?_)))
  exact (runIfAccepted_runs (hworks.calm hcalm1) (hworks.runningAt hrunning1)
    fun p => ⟨_, rfl⟩).of_reaches s (.head hstep hworks.reaches)

end

/-! ## Dispatching system calls -/

theorem returnFrom_runs {rval : SyscallReturn}
    (hreaches : Reaches platform rejects s0 (s.record (.handled index syscall rval)))
    (hcalm : s0.All (Calm platform panics)) (hrun : RunningAt index s) (script : SyscallScript) :
    Outcome (returnFrom index syscall script rval)
      (fun _ s' => Reaches platform rejects s0 s') (PolicyPanic panics) s := by
  refine bind (modify ?_)
  exact (setSyscallReturnValue_runs (hreaches.calm hcalm) hrun rval
    script.stores).of_reaches s0 hreaches

theorem handled_runs (hsyscall : syscall.exchange? = none) (hcalm : s.All (Calm platform panics))
    (hrun : RunningAt index s) (hm : OnlyWorks platform False (PolicyPanic panics) m s)
    (rval : α → SyscallReturn) (script : SyscallScript) :
    Runs platform rejects panics (m >>= fun a => returnFrom index syscall script (rval a)) s :=
  bind (hm.mono fun a _ hworks =>
    returnFrom_runs (hworks.reaches.tail (.handle index (rval a) hsyscall))
      hcalm (hworks.runningAt hrun) script)

@[simp]
theorem SavedKind.isSuccess_success (kind : SavedKind)
    (words : Usize × Usize) : (kind.success words).isSuccess := by
  cases kind <;> rfl

@[simp]
theorem SavedKind.isSuccess_failure (kind : SavedKind) (err : ErrorCode)
    (words : Usize × Usize) : (kind.failure err words).isSuccess = false := by
  cases kind <;> rfl

theorem swapSaved_isRunning {kind : SavedKind} {driverNum num : Usize} {new old : Usize × Usize}
    (hswap : p.swapSaved kind driverNum num new = (.ok old, p')) : p'.isRunning := by
  rcases p.swapSaved_cases kind driverNum num new with
    ⟨_, hcase⟩ | ⟨_, _, _, hrun, -, -, -, -, hcase⟩
  · rw [hcase] at hswap
    cases hswap
  rw [hcase] at hswap
  cases hswap
  exact hrun

theorem runningAt_setProcess (hrun : p.isRunning) : RunningAt index (s.setProcess index p) := by
  intro q hq
  cases processes_setProcess.symm.trans hq
  exact hrun

theorem refused_runs {new : Usize × Usize} (hsyscall : syscall.exchange? = some (key, new))
    (err : ErrorCode) (hcalm : s0.All (Calm platform panics)) (hrun : RunningAt index s0)
    (hworks : Works platform False s0 s) (script : SyscallScript) :
    Outcome (returnFrom index syscall script (key.kind.failure err new))
      (fun _ s' => Reaches platform rejects s0 s') (PolicyPanic panics) s :=
  returnFrom_runs (hworks.reaches.tail (.refuse index err hsyscall)) hcalm
    (hworks.runningAt hrun) script

theorem SavedKey.clearPending_isRunning (key : SavedKey)
    (p : ProcessStandard B) : (key.clearPending p).isRunning = p.isRunning := by
  unfold clearPending
  split <;> rfl

theorem exchanged_runs {new old : Usize × Usize} (hsyscall : syscall.exchange? = some (key, new))
    (hcalm : s0.All (Calm platform panics)) (hworks : Works platform False s0 s)
    (hp : s.processes index = some p)
    (hswap : p.swapSaved key.kind key.driverNum key.num new = (.ok old, p'))
    (script : SyscallScript) : Outcome (returnFrom index syscall script (key.kind.success old))
      (fun _ s' => Reaches platform rejects s0 s') (PolicyPanic panics)
      (s.setProcess index (key.clearPending p')) :=
  returnFrom_runs (hworks.reaches.tail (.exchange hp hsyscall hswap)) hcalm
    (runningAt_setProcess ((key.clearPending_isRunning p').trans
      (swapSaved_isRunning hswap))) script

section

variable (hcalm : s.All (Calm platform panics)) (hrun : RunningAt index s)
include hcalm hrun

theorem allow_runs {m : KernelM B SyscallReturn} {new : Usize × Usize}
    (hsyscall : syscall.exchange? = some (key, new)) (hkind : key.kind ≠ .upcall)
    (hm : Outcome m (ExchangeHandled platform False index key new s) (PolicyPanic panics) s)
    (script : SyscallScript) :
    Runs platform rejects panics (m >>= fun rval => returnFrom index syscall script rval) s := by
  refine bind (hm.mono fun rval s2 hhandled => ?_)
  obtain ⟨s1, hworks, ⟨err, rfl, rfl⟩ | ⟨_, rfl, p, p', hp, hswap, rfl⟩⟩ := hhandled
  · exact refused_runs hsyscall err hcalm hrun hworks script
  have hkeep : key.clearPending p' = p' := by
    unfold SavedKey.clearPending
    split
    · contradiction
    · rfl
    · rfl
  rw [show s1.setProcess index p' = s1.setProcess index (key.clearPending p') by rw [hkeep]]
  exact exchanged_runs hsyscall hcalm hworks hp hswap script

theorem subscribe_runs
    (driverNumber subdriverNumber upcallPtr appdata : Usize) (script : SyscallScript) :
    Runs platform rejects panics (dispatchSyscall platform index
      (.subscribe driverNumber subdriverNumber upcallPtr appdata) script) s := by
  have hhandle : Outcome (handleSubscribe platform index script.driver
      driverNumber subdriverNumber upcallPtr appdata) (ExchangeHandled platform False index
        ⟨.upcall, driverNumber, subdriverNumber⟩ (appdata, upcallPtr) s) (PolicyPanic panics) s :=
    handleSubscribe_outcome hcalm script.driver driverNumber subdriverNumber upcallPtr appdata
  refine bind (hhandle.mono fun rval s2 hhandled => ?_)
  obtain ⟨_, hworks, ⟨err, rfl, rfl⟩ | ⟨_, rfl, p, _, hp, hswap, rfl⟩⟩ := hhandled
  · rw [SavedKind.isSuccess_failure]
    exact refused_runs rfl err hcalm hrun hworks script
  refine bind (onProcess_of_some processes_setProcess ?_)
  rw [setProcess_setProcess]
  exact exchanged_runs rfl hcalm hworks hp hswap script

theorem dispatchSyscall_runs (syscall : Syscall) (script : SyscallScript) :
    Runs platform rejects panics (dispatchSyscall platform index syscall script) s := by
  cases syscall with
  | memop operand arg0 =>
    exact handled_runs rfl hcalm hrun
      (onProcess_works fun p _ => memop_works p operand arg0) id script
  | yield which paramA paramB =>
    exact .of_works False (handleYield_works which paramA paramB)
  | subscribe driverNumber subdriverNumber upcallPtr appdata =>
    exact subscribe_runs hcalm hrun driverNumber subdriverNumber upcallPtr appdata script
  | command driverNumber subdriverNumber arg0 arg1 =>
    exact handled_runs rfl hcalm hrun
      (handleCommand_works hcalm script.driver) CommandReturn.inner script
  | readWriteAllow driverNumber subdriverNumber allowAddress allowSize =>
    exact allow_runs hcalm hrun rfl (by simp)
      (handleReadWriteAllow_outcome hcalm script.driver driverNumber
        subdriverNumber allowAddress allowSize) script
  | userspaceReadableAllow driverNumber subdriverNumber allowAddress allowSize =>
    exact handled_runs rfl hcalm hrun
      (handleUserspaceReadableAllow_works hcalm script.driver allowAddress allowSize) id script
  | readOnlyAllow driverNumber subdriverNumber allowAddress allowSize =>
    exact allow_runs hcalm hrun rfl (by simp)
      (handleReadOnlyAllow_outcome hcalm script.driver driverNumber
        subdriverNumber allowAddress allowSize) script
  | exit which completionCode =>
    unfold dispatchSyscall
    simp only
    split
    · exact modifyProcess_runs fun p hp =>
        .single (.terminate hp (some completionCode))
    · exact tryRestart_runs (some completionCode)
    · exact returnFrom_runs (.single (.handle index _ rfl)) hcalm hrun script

def SyscallScript.AdmitsExchanges (script : SyscallScript) : Prop :=
  ∀ syscall, syscall.exchange?.isSome = true → script.filter syscall = .ok ()

theorem handleSyscall_runs (syscall : Syscall)
    {script : SyscallScript} (hadmits : rejects ∨ script.AdmitsExchanges) :
    Runs platform rejects panics (handleSyscall platform index syscall script) s := by
  have hcalled : OnlyWorks platform False (PolicyPanic panics)
      (modifyProcess index fun p => p.debugSyscallCalled syscall) s :=
    onProcess_works fun p _ => debug_works p _
  refine bind (hcalled.mono fun _ s1 hworks => ?_)
  have hcalm1 := hworks.calm hcalm
  have hrunning1 := hworks.runningAt hrun
  have hdispatch : Outcome (dispatchSyscall platform index syscall script)
      (fun _ s' => Reaches platform rejects s s') (PolicyPanic panics) s1 :=
    (dispatchSyscall_runs hcalm1 hrunning1 syscall script).of_reaches s hworks.reaches
  split_ifs
  · cases hfilter : script.filter syscall with
    | ok _ => exact hdispatch
    | error response =>
      refine returnFrom_runs (hworks.reaches.tail ?_) hcalm hrunning1 script
      cases hexchange : syscall.exchange? with
      | none => exact .handle index _ hexchange
      | some _ =>
        rcases hadmits with hrejects | hadmits
        · exact .reject index syscall response hrejects
        · rw [hadmits syscall (by rw [hexchange]; rfl)] at hfilter
          cases hfilter
  · exact hdispatch

end

/-! ## Running a process -/

theorem noteStackPointer_works (p : ProcessStandard B) (stackPointer : Option Usize) :
    Relation.ReflTransGen (ProcessWork platform drops) p (p.noteStackPointer stackPointer) := by
  unfold noteStackPointer
  split
  · exact .refl
  split_ifs
  · exact debug_works p _
  · exact .refl

theorem switchTo_works (p : ProcessStandard B) :
    Relation.ReflTransGen (ProcessWork platform drops) p p.switchTo.2 := by
  unfold switchTo
  split_ifs
  · exact .refl
  · exact .head (.quiet (.storedState p _)) (noteStackPointer_works _ _)

theorem dequeueTask_work (p : ProcessStandard B) : ProcessWork platform True p p.dequeueTask.2 := by
  refine .dropTasks p _ trivial ?_
  rw [toList_dequeue]
  exact List.tail_sublist _

theorem removeUpcall_work (p : ProcessStandard B) (upcallId : UpcallId) :
    ProcessWork platform True p (p.removeUpcall upcallId).2 := by
  refine .dropTasks p _ trivial ?_
  rw [toList_removeFirstMatching]
  exact List.eraseP_sublist

theorem removeUpcall_ne_ipc (p : ProcessStandard B) (upcallId : UpcallId)
    (caller : ProcessId) (kind : IpcUpcallType) :
    (p.removeUpcall upcallId).1 ≠ some (.ipc caller kind) := by
  intro hremoved
  unfold removeUpcall at hremoved
  rw [removeFirstMatching_fst] at hremoved
  have hmatches := List.find?_some hremoved
  simp at hmatches

theorem isRunning_of_ready (hcalm : p.Calm platform panics) (hready : p.ready) : p.isRunning := by
  by_contra hstopped
  rw [Bool.not_eq_true] at hstopped
  have hempty := hcalm.idle hstopped
  unfold ready at hready
  rw [Bool.or_eq_true, hasElements_iff, beq_iff_eq] at hready
  rcases hready with htasks | hstate
  · exact htasks hempty
  · rw [isRunning_of_running hstate] at hstopped
    cases hstopped

section

variable (hcalm : s.All (Calm platform panics))
include hcalm

/-- The system calls and timeslice of a running process are a run of kernel steps. -/
theorem runProcess_runs (hp : s.processes index = some p) (hstate : p.state = .running)
    {turn : Turn} (hadmits : rejects ∨ turn.script.AdmitsExchanges) :
    Runs platform rejects panics (runProcess platform index turn) s := by
  have hsetup : ProcessWork platform True p p.setupMpu := .quiet (.setupMpu p)
  -- The state is read and logged before anything else can change it.
  refine bind (onProcess_of_some hp (bind (onProcess_of_some
    processes_setProcess (bind (modify ?_)))))
  rw [setProcess_setProcess]
  have hlogged : Reaches platform rejects s ((s.setProcess index
      p.setupMpu).record (.switchedTo index p.setupMpu.state)) :=
    .tail (.single (.work hp hsetup)) (.switchTo processes_setProcess hstate)
  have hrunning1 : RunningAt index ((s.setProcess index
      p.setupMpu).record (.switchedTo index p.setupMpu.state)) :=
    runningAt_setProcess (isRunning_of_running hstate)
  have hstores : Outcome (modifyProcess index fun p => p.writeAppMemory turn.stores)
      (fun _ s' => Works platform False ((s.setProcess index
        p.setupMpu).record (.switchedTo index p.setupMpu.state)) s') (PolicyPanic panics) _ :=
    modifyProcess_works fun p _ => .quiet (.writeAppMemory p turn.stores)
  refine hstores.seq fun _ s2 h2 => ?_
  have hswitch : OnlyWorks platform False (PolicyPanic panics) (onProcess index none switchTo) s2 :=
    onProcess_works fun p _ => switchTo_works p
  refine hswitch.seq fun reason s3 h3 => ?_
  have hworks : Works platform False _ s3 := h2.trans h3
  have hreaches : Reaches platform rejects s s3 := hlogged.trans hworks.reaches
  have hcalm3 := hreaches.calm hcalm
  have hfault : Outcome (do setFaultState index; return none)
      (fun (_ : Option StoppedExecutingReason) s' =>
        Reaches platform rejects s s') (PolicyPanic panics) s3 :=
    ((setFaultState_runs hcalm3).of_reaches s hreaches).seq fun _ _ h => pure h
  cases reason with
  | none => exact hfault
  | some reason =>
    cases reason with
    | fault =>
      simp only
      split_ifs
      · exact hfault
      · exact pure hreaches
    | syscallFired syscall =>
      exact ((handleSyscall_runs hcalm3 (hworks.runningAt hrunning1) syscall hadmits).of_reaches s
        hreaches).seq fun _ _ h => pure h
    | interrupted =>
      simp only
      split_ifs
      · have hexpired : Runs platform rejects panics (modifyProcess index
            debugTimesliceExpired) s3 :=
          .of_works False (onProcess_works fun p _ => debug_works p _)
        exact (hexpired.of_reaches s hreaches).seq fun _ _ h => pure h
      · exact pure hreaches

theorem runTask_runs (hp : s.processes index = some p) (hrun : p.isRunning) (turn : Turn) :
    Runs platform rejects panics (runTask platform index turn) s := by
  have hhead : p.dequeueTask.1 = p.tasks.toList.head? := p.tasks.dequeue_fst
  have hdropped : Works platform True s (s.setProcess index p.dequeueTask.2) :=
    works_of_processWork hp (dequeueTask_work p)
  have hrunningAt : RunningAt index s := by
    intro q hq
    cases hp.symm.trans hq
    exact hrun
  refine bind (onProcess_of_some hp ?_)
  rcases htask : p.dequeueTask.1 with _ | task
  · exact pure hdropped.reaches
  rw [htask] at hhead
  cases task with
  | returnValue arguments => exact pure hdropped.reaches
  | functionCall call =>
    exact (setProcessFunction_runs hcalm hrunningAt hp hhead.symm _).seq fun _ _ h => pure h
  | ipc caller kind =>
    have hipc := (hcalm index p hp).ipc caller kind
      (List.mem_of_mem_head? (Option.mem_def.mpr hhead.symm))
    obtain ⟨grantNum, hgrant⟩ := Option.isSome_iff_exists.mp hipc
    rw [hgrant]
    refine bind (onProcess_read fun processId => ?_)
    have hschedule : Outcome (ipcScheduleUpcall platform grantNum
        processId caller kind) (fun _ s' => Works platform True
          (s.setProcess index p.dequeueTask.2) s') (PolicyPanic panics) _ :=
      ipcScheduleUpcall_works (hdropped.calm hcalm) grantNum processId caller kind
    exact hschedule.seq fun _ _ hworks =>
      pure (hdropped.reaches.trans hworks.reaches)

theorem runWaiting_runs (hp : s.processes index = some p) (hrun : p.isRunning)
    (upcallId : UpcallId) (turn : Turn) :
    Runs platform rejects panics (runWaiting index upcallId turn) s := by
  have hremoved : Works platform True s (s.setProcess index (p.removeUpcall upcallId).2) :=
    works_of_processWork hp (removeUpcall_work p upcallId)
  have hreturn : ∀ rval, Outcome (do
      setSyscallReturnValue index rval turn.script.stores
      return none) (fun (_ : Option StoppedExecutingReason) s' =>
        Reaches platform rejects s s') (PolicyPanic panics)
      (s.setProcess index (p.removeUpcall upcallId).2) := fun rval =>
    ((setSyscallReturnValue_runs (hremoved.calm hcalm)
      (runningAt_setProcess hrun) rval _).of_reaches s hremoved.reaches).seq fun _ _ h => pure h
  have hnotIpc := removeUpcall_ne_ipc p upcallId
  refine bind (onProcess_of_some hp ?_)
  rcases htask : (p.removeUpcall upcallId).1 with _ | task
  · exact pure hremoved.reaches
  cases task with
  | returnValue rv | functionCall call => exact hreturn _
  | ipc caller kind => exact absurd htask (hnotIpc caller kind)

theorem doProcessTurn_runs {turn : Turn} (hadmits : rejects ∨ turn.script.AdmitsExchanges) :
    Runs platform rejects panics (doProcessTurn platform index turn) s := by
  have hexpired : Runs platform rejects panics (modifyProcess index debugTimesliceExpired) s :=
    .of_works False (onProcess_works fun p _ => debug_works p _)
  unfold doProcessTurn
  split_ifs
  · exact seq hexpired fun _ _ h => pure h
  · exact pure .refl
  cases hp : s.processes index with
  | none => exact bind (onProcess_of_none hp (pure .refl))
  | some p =>
    refine bind (onProcess_of_some hp ?_)
    rw [setProcess_self hp]
    split_ifs with hready
    · exact pure .refl
    rw [Bool.not_eq_true', Bool.not_eq_false] at hready
    have hrun := isRunning_of_ready (hcalm index p hp) hready
    refine bind (onProcess_of_some hp ?_)
    rw [setProcess_self hp]
    unfold isRunning at hrun
    rcases hstate : p.state with _ | _ | upcallId | _ | _ | _
    · exact runProcess_runs hcalm hp hstate hadmits
    · exact runTask_runs hcalm hp (by rw [isRunning, hstate]) turn
    · exact runWaiting_runs hcalm hp (by rw [isRunning, hstate]) upcallId turn
    · exact pure .refl
    all_goals
      rw [hstate] at hrun
      cases hrun

theorem doProcess_runs {turns : List Turn}
    (hadmits : rejects ∨ ∀ turn ∈ turns, turn.script.AdmitsExchanges) :
    Runs platform rejects panics (doProcess platform index turns) s := by
  induction turns generalizing s with
  | nil => exact .pure _
  | cons turn turns ih =>
    refine Runs.bind (doProcessTurn_runs hcalm
      (hadmits.imp_right fun h => h turn List.mem_cons_self)) ?_
    intro reason s' hreaches
    cases reason with
    | some reason => exact .pure _
    | none =>
      exact ih (hreaches.calm hcalm) (hadmits.imp_right fun h turn' hmem => h turn'
          (List.mem_cons_of_mem _ hmem))

end

/-! ## Runs of the kernel -/

theorem stop_works (p : ProcessStandard B) :
    Relation.ReflTransGen (ProcessWork platform drops) p p.stop := by
  unfold ProcessStandard.stop
  split
  iterate 3 next hstate => exact setState_works (by rw [isRunning, hstate]) rfl
  all_goals exact .refl

theorem resume_works (p : ProcessStandard B) :
    Relation.ReflTransGen (ProcessWork platform drops) p p.resume := by
  unfold ProcessStandard.resume
  split
  iterate 3 next hstate => exact setState_works (by rw [isRunning, hstate]) rfl
  · exact .refl

variable (hcalm : s.All (Calm platform panics))
include hcalm

theorem manageProcess_runs (operation : ProcessManagement) :
    Runs platform rejects panics (manageProcess index operation) s := by
  cases operation with
  | stop => exact .of_works False (onProcess_works fun p _ => stop_works p)
  | resume => exact .of_works False (onProcess_works fun p _ => resume_works p)
  | terminate completionCode =>
    exact modifyProcess_runs fun p hp =>
      .single (.terminate hp completionCode)
  | tryRestart completionCode => exact tryRestart_runs completionCode
  | start => exact start_runs
  | setFaultState => exact setFaultState_runs hcalm

/-- The system call filter of an event lets subscribe and allow calls
through. -/
def KernelEvent.AdmitsExchanges : KernelEvent → Prop
  | .capsules _ | .manage _ _ => True
  | .doProcess _ turns => ∀ turn ∈ turns, turn.script.AdmitsExchanges

theorem handleEvent_runs {event : KernelEvent} (hadmits : rejects ∨ event.AdmitsExchanges) :
    Runs platform rejects panics (handleEvent platform event) s := by
  cases event with
  | capsules actions =>
    exact .of_works False (runCapsule_works hcalm actions)
  | manage index operation => exact manageProcess_runs hcalm operation
  | doProcess index turns =>
    exact Runs.bind (doProcess_runs hcalm hadmits) fun _ _ _ => .pure _

theorem runKernel_runs {events : List KernelEvent}
    (hadmits : rejects ∨ ∀ event ∈ events, event.AdmitsExchanges) :
    Runs platform rejects panics (runKernel platform events) s := by
  induction events generalizing s with
  | nil => exact .pure _
  | cons event events ih =>
    refine Runs.bind (handleEvent_runs hcalm
      (hadmits.imp_right fun h => h event List.mem_cons_self)) ?_
    intro _ s' hreaches
    exact ih (hreaches.calm hcalm) (hadmits.imp_right fun h event' hmem => h event'
        (List.mem_cons_of_mem _ hmem))

end TockKernel

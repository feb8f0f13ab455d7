import TockKernel.SwapSemantics

/-!
# Queued upcalls are those the process has subscribed

What `SavedInvariant` says about the task queue, and what one subscribe call
does to it: a successful call leaves no upcall with its identifier in the
queue, and a call that fails leaves in the queue whatever was there.
-/

namespace TockKernel

open ProcessStandard KernelState Outcome SavedKind GrantAction List

variable {B : Board} {platform : Platform} {rejects panics : Prop}
  {s s' : KernelState B} {index : ℕ} {p p' : ProcessStandard B}

/-! ## Work that drops no tasks -/

theorem tasks_prefix_enqueueTask (p : ProcessStandard B) (task : Task) :
    p.tasks.toList <+: (p.enqueueTask task).2.tasks.toList := by
  obtain ⟨tasks, _, hframe, htasks⟩ := p.enqueueTask_outcome task
  rw [hframe]
  rcases htasks with htasks | ⟨-, htasks⟩
  · rw [htasks]
  · rw [htasks]
    exact prefix_append _ _

theorem tasks_prefix_apply (decl : GrantDecl) (layout : KernelManagedLayout)
    (p : ProcessStandard B) (action : GrantAction) : p.tasks.toList <+:
      (apply decl layout p action).tasks.toList := by
  cases action with
  | scheduleUpcall subscribeNum r0 r1 r2 =>
    simp only [apply, scheduleUpcall_snd]
    split_ifs
    · exact tasks_prefix_enqueueTask p _
    · exact prefix_rfl
  | setData bytes => exact prefix_rfl
  | allocate size align =>
    simp only [apply, allocateCustomGrant]
    split_ifs
    · exact prefix_rfl
    rcases p.allocateInGrantRegionInternal_outcome size align with
      ⟨config, hnone⟩ | ⟨config, -, -, hsome⟩
    · rw [hnone]
    · rw [hsome]

theorem tasks_prefix_foldl_apply (decl : GrantDecl) (layout : KernelManagedLayout)
    (closure : List GrantAction) (p : ProcessStandard B) : p.tasks.toList <+:
      (closure.foldl (apply decl layout) p).tasks.toList := by
  induction closure generalizing p with
  | nil => exact prefix_rfl
  | cons action closure ih =>
    exact (tasks_prefix_apply decl layout p action).trans (ih _)

theorem ProcessWork.tasks_prefix (hwork : ProcessWork platform False p p') :
    p.tasks.toList <+: p'.tasks.toList := by
  cases hwork with
  | quiet hquiet => rw [hquiet.same.tasks]
  | dropTasks _ hdrops _ => exact hdrops.elim
  | enqueueIpc caller kind _ => exact tasks_prefix_enqueueTask p _
  | newProcessGrant grantNum =>
    rcases p.newProcessGrant_cases grantNum (platform.grants grantNum.toNat) with
      ⟨-, hfound⟩ | ⟨_, _, -, herror⟩ | ⟨_, -, -, -, -, hnew⟩
    · rw [hfound]
    · rw [herror]
    · rw [hnew]
  | accessGrant grantNum closure _ haccess =>
    obtain ⟨-, _, -, -, rfl⟩ := accessGrant_ok haccess
    exact tasks_prefix_foldl_apply _ _ closure p

theorem Works.log {drops : Prop} (hworks : Works platform drops s s') : s'.log = s.log := by
  induction hworks with
  | refl => rfl
  | tail _ hstep ih =>
    obtain ⟨_, _, _, -, -, rfl⟩ := hstep
    exact ih

theorem Works.tasks_prefix (hworks : Works platform False s s') (hp : s.processes index = some p) :
    ∃ p', s'.processes index = some p' ∧ p.tasks.toList <+: p'.tasks.toList := by
  induction hworks with
  | refl => exact ⟨p, hp, prefix_rfl⟩
  | tail _ hstep ih =>
    obtain ⟨q, hq, hprefix⟩ := ih
    obtain ⟨other, r, r', hr, hwork, rfl⟩ := hstep
    by_cases hsame : index = other
    · subst hsame
      cases hq.symm.trans hr
      exact ⟨r', processes_setProcess, hprefix.trans hwork.tasks_prefix⟩
    · exact ⟨q, (processes_setProcess_of_ne hsame).trans hq, hprefix⟩

/-! ## Returning to the process -/

theorem initializeAgain_state (hstate : p.state ≠ .running) (start : Usize) :
    (p.initializeAgain start).2.state ≠ .running := by
  unfold initializeAgain
  split
  · exact hstate
  obtain ⟨_, _, hframe, -⟩ := enqueueTask_outcome _ _
  rw [hframe]
  simp

theorem resetToYielded_state (hstate : p.state ≠ .running) (kernel : Kernel) :
    (p.resetToYielded kernel).1.state ≠ .running := by
  have hreset : (p.reset kernel).1.2.state ≠ .running := by
    unfold reset resetAs
    simp only
    split
    · exact hstate
    split
    · exact hstate
    · refine initializeAgain_state ?_ _
      exact hstate
  unfold resetToYielded
  rcases hres : p.reset kernel with ⟨⟨_ | _, q⟩, _⟩
  · rw [hres] at hreset
    exact hreset
  · simp

theorem setFaultState_queue {kernel kernel' : Kernel} (hrun : p.isRunning)
    (hfault : p.setFaultState kernel = .ok (p', kernel')) : p'.state ≠ .running ∧
      ∀ task ∈ p'.tasks.toList, ∃ q : ProcessStandard B, task = q.initTask := by
  rcases p.terminate_cases none with ⟨hstopped, -⟩ | ⟨-, hterminate⟩
  · exact absurd (hrun.symm.trans hstopped) (by decide)
  have htasks : (p.terminate none).tasks.toList = [] := by
    rw [hterminate]
    exact RingBuffer.toList_empty _
  unfold ProcessStandard.setFaultState at hfault
  split at hfault
  · cases hfault
  · have hstate : ¬ p.state = .terminated := by
      intro hstate
      rw [isRunning, hstate] at hrun
      cases hrun
    unfold tryRestart at hfault
    rw [if_neg hstate] at hfault
    have hrestarted : ((p.terminate none).resetToYielded kernel).1 = p' :=
      congrArg Prod.fst (Except.ok.inj hfault)
    rw [← hrestarted]
    refine ⟨resetToYielded_state (by rw [hterminate]; simp) kernel, ?_⟩
    intro task hmem
    obtain ⟨-, -, hreset⟩ := (p.terminate none).resetToYielded_outcome
      (terminate_isRunning p none) kernel
    rw [htasks] at hreset
    rcases hreset with ⟨-, hsame⟩ | ⟨-, q, hsame | hnew⟩
    · rw [hsame, htasks] at hmem
      cases hmem
    · rw [hsame] at hmem
      cases hmem
    · rw [hnew, nil_append, mem_singleton] at hmem
      exact ⟨q, hmem⟩
  · cases hfault
    refine ⟨by simp, fun task hmem => ?_⟩
    rw [show ({ p.terminate none with state := .faulted } :
      ProcessStandard B).tasks.toList = [] from htasks] at hmem
    cases hmem

theorem KernelState.commit_processes (p : ProcessStandard B)
    (kernel : Kernel) : (s.commit index p kernel).processes index = some p := by
  unfold commit
  split_ifs
  all_goals exact processes_setProcess

theorem KernelState.commit_log (s : KernelState B) (index : ℕ)
    (p : ProcessStandard B) (kernel : Kernel) :
    ∃ newer, (s.commit index p kernel).log = newer ++ s.log := by
  unfold commit
  split_ifs
  · exact ⟨[], rfl⟩
  · exact ⟨[.restarted index], rfl⟩

/-- The queue after a system call has returned: what it was, unless handing
over the result made the process fault. -/
def Returned (index : ℕ) (entry : LogEntry) (tasks : List Task) (s s' : KernelState B) : Prop :=
  ∃ p' newer, s'.processes index = some p' ∧ s'.log = newer ++ entry :: s.log ∧
    (p'.tasks.toList = tasks ∨ p'.state ≠ .running ∧
      ∀ task ∈ p'.tasks.toList, ∃ q : ProcessStandard B, task = q.initTask)

theorem returnFrom_outcome (hp : s.processes index = some p)
    (hrun : p.isRunning) (syscall : Syscall)
    (script : SyscallScript) (rval : SyscallReturn) : Outcome (returnFrom index syscall script rval)
      (fun _ s' => Returned index (.handled index syscall rval)
        p.tasks.toList s s') (fun _ => True) s := by
  refine bind (modify (bind (onProcess_of_some hp ?_)))
  refine onLifecycle_outcome (fun hnone => ?_) (fun _ _ _ _ => trivial)
    (fun q q' kernel hq hreturn => ?_)
  · cases processes_setProcess.symm.trans hnone
  cases processes_setProcess.symm.trans hq
  obtain ⟨newer, hlog⟩ := commit_log ((s.record (.handled index syscall rval)).setProcess index
      (p.writeAppMemory script.stores)) index q' kernel
  refine ⟨q', newer, commit_processes q' kernel, hlog, ?_⟩
  unfold ProcessStandard.setSyscallReturnValue runIfAccepted at hreturn
  split at hreturn
  · cases hreturn
    exact .inl rfl
  · refine .inr (setFaultState_queue ?_ hreturn)
    exact hrun

/-! ## A subscribe call -/

def Subscribed (index : ℕ) (syscall : Syscall) (id : UpcallId)
    (tasks : List Task) (s s' : KernelState B) : Prop :=
  ∃ rval p' newer, s'.processes index = some p' ∧
    s'.log = newer ++ .handled index syscall rval :: s.log ∧ (rval.isSuccess = true → ∀ call,
      .functionCall call ∈ p'.tasks.toList → call.source ≠ .driver id) ∧
    (rval.isSuccess = false → p'.state = .running → tasks <+: p'.tasks.toList)

theorem Subscribed.of_refused {s1 : KernelState B} {syscall : Syscall}
    {rval : SyscallReturn} (hfailed : rval.isSuccess = false)
    (hworks : Works platform False s s1) (hp : s.processes index = some p)
    (hrun : p.isRunning) (id : UpcallId) (script : SyscallScript) :
    Outcome (returnFrom index syscall script rval)
      (fun _ s' => Subscribed index syscall id p.tasks.toList s s') (fun _ => True) s1 := by
  obtain ⟨p1, hp1, hprefix⟩ := hworks.tasks_prefix hp
  have hrunning1 : RunningAt index s1 := by
    refine hworks.runningAt fun q hq => ?_
    cases hp.symm.trans hq
    exact hrun
  refine (returnFrom_outcome hp1 (hrunning1 p1 hp1) syscall script rval).mono ?_
  rintro _ s' ⟨p', newer, hp', hlog, htasks⟩
  rw [hworks.log] at hlog
  refine ⟨rval, p', newer, hp', hlog, fun hsuccess => ?_, fun _ hstate => ?_⟩
  · exact absurd (hsuccess.symm.trans hfailed) (by decide)
  · rcases htasks with hsame | ⟨hfaulted, -⟩
    · rw [hsame]
      exact hprefix
    · exact absurd hstate hfaulted

theorem mem_removePendingUpcalls {id : UpcallId} {call : FunctionCall}
    (hmem : .functionCall call ∈ (p.removePendingUpcalls id).tasks.toList) :
    call.source ≠ .driver id := by
  simp only [removePendingUpcalls, RingBuffer.toList_retain] at hmem
  intro hsource
  simp [hsource] at hmem

theorem handleSyscall_subscribed (hcalm : s.All (Calm platform panics))
    (hp : s.processes index = some p) (hrun : p.isRunning)
    (driverNumber subdriverNumber upcallPtr appdata : Usize) (script : SyscallScript) :
    Outcome (handleSyscall platform index
        (.subscribe driverNumber subdriverNumber upcallPtr appdata) script)
      (fun _ s' => Subscribed index (.subscribe driverNumber subdriverNumber upcallPtr appdata)
        ⟨driverNumber, subdriverNumber⟩ p.tasks.toList s s') (fun _ => True) s := by
  have hcalled : OnlyWorks platform False (fun _ => True) (modifyProcess index fun p =>
      p.debugSyscallCalled (.subscribe driverNumber subdriverNumber upcallPtr appdata)) s :=
    onProcess_works fun p _ => debug_works p _
  refine hcalled.seq fun _ s1 hworks1 => ?_
  cases script.filter _ with
  | error response =>
    exact Subscribed.of_refused rfl hworks1 hp hrun _ script
  | ok _ =>
    have hhandle : Outcome (handleSubscribe platform index script.driver
        driverNumber subdriverNumber upcallPtr appdata) (ExchangeHandled platform False index
          ⟨.upcall, driverNumber, subdriverNumber⟩ (appdata, upcallPtr) s1) (fun _ => True) s1 :=
      handleSubscribe_outcome (hworks1.calm hcalm) script.driver
        driverNumber subdriverNumber upcallPtr appdata
    refine hhandle.seq fun rval s3 hhandled => ?_
    obtain ⟨s2, hworks2, ⟨-, rfl, rfl⟩ | ⟨old, rfl, q, q', -, hswap, rfl⟩⟩ := hhandled
    · rw [isSuccess_failure]
      exact Subscribed.of_refused (isSuccess_failure _ _ _) (hworks1.trans hworks2) hp hrun _ script
    refine bind (onProcess_of_some processes_setProcess ?_)
    have hrunning' : q'.isRunning := swapSaved_isRunning hswap
    refine (returnFrom_outcome (p := q'.removePendingUpcalls ⟨driverNumber, subdriverNumber⟩)
      processes_setProcess hrunning' _ script _).mono ?_
    rintro _ s' ⟨p', newer, hp', hlog, htasks⟩
    have hworks : Works platform False s s2 := hworks1.trans hworks2
    have hlog' : s'.log = newer ++ .handled index (.subscribe driverNumber
        subdriverNumber upcallPtr appdata) (upcall.success old) :: s2.log := hlog
    rw [hworks.log] at hlog'
    refine ⟨_, p', newer, hp', hlog', fun _ call hmem => ?_, fun hfailed => ?_⟩
    · rcases htasks with hsame | ⟨-, hinit⟩
      · rw [hsame] at hmem
        exact mem_removePendingUpcalls hmem
      obtain ⟨r, hr⟩ := hinit _ hmem
      cases hr
      simp
    · rw [isSuccess_success] at hfailed
      cases hfailed

def ProcessStandard.afterSwitch (p : ProcessStandard B) (turn : Turn) : ProcessStandard B :=
  (p.setupMpu.writeAppMemory turn.stores).switchTo.2

theorem afterSwitch_works {drops : Prop} (p : ProcessStandard B) (turn : Turn) :
    Relation.ReflTransGen (ProcessWork platform drops) p (p.afterSwitch turn) :=
  .head (.quiet (.setupMpu p)) (.head (.quiet (.writeAppMemory _ turn.stores)) (switchTo_works _))

theorem runProcess_fired {turn : Turn} {syscall : Syscall}
    {post : KernelState B → Prop} {fail : Panic → Prop}
    (hp : s.processes index = some p) (hstate : p.state = .running)
    (hfired : (p.setupMpu.writeAppMemory turn.stores).switchTo.1 = some (.syscallFired syscall))
    (hsyscall : Outcome (handleSyscall platform index syscall turn.script)
      (fun _ s' => post s') fail ((s.setProcess index
        (p.afterSwitch turn)).record (.switchedTo index .running))) :
    Outcome (runProcess platform index turn) (fun reason s' => reason = none ∧ post s') fail s := by
  refine bind (onProcess_of_some hp (bind (onProcess_of_some
    processes_setProcess (bind (modify ?_)))))
  rw [setProcess_setProcess]
  refine bind (onProcess_of_some processes_setProcess (bind (onProcess_of_some
    processes_setProcess ?_)))
  rw [setProcess_setProcess]
  simp only [hfired]
  change Outcome _ _ _ (((s.setProcess index p.setupMpu).setProcess index
    (p.afterSwitch turn)).record (.switchedTo index p.state))
  rw [setProcess_setProcess, hstate]
  exact hsyscall.seq fun _ _ hpost => pure ⟨rfl, hpost⟩

theorem runProcess_subscribed (hcalm : s.All (Calm platform panics))
    (hp : s.processes index = some p) (hstate : p.state = .running)
    {turn : Turn} {driverNumber subdriverNumber upcallPtr appdata : Usize}
    (hfired : (p.setupMpu.writeAppMemory turn.stores).switchTo.1 = some (.syscallFired
        (.subscribe driverNumber subdriverNumber upcallPtr appdata))) :
    Outcome (runProcess platform index turn) (fun _ s' => Subscribed index
        (.subscribe driverNumber subdriverNumber upcallPtr appdata)
        ⟨driverNumber, subdriverNumber⟩ p.tasks.toList
        (s.record (.switchedTo index .running)) s') (fun _ => True) s := by
  have hworks : Works platform False s (s.setProcess index (p.afterSwitch turn)) :=
    works_of_processWorks hp (afterSwitch_works p turn)
  obtain ⟨_, hq', hprefix⟩ := hworks.tasks_prefix hp
  have hrun : RunningAt index (s.setProcess index (p.afterSwitch turn)) := by
    refine hworks.runningAt fun p' hp' => ?_
    cases hp.symm.trans hp'
    exact isRunning_of_running hstate
  have hcalm' : ((s.setProcess index (p.afterSwitch turn)).record
      (.switchedTo index .running)).All (Calm platform panics) :=
    hworks.calm hcalm
  refine (runProcess_fired hp hstate hfired (handleSyscall_subscribed hcalm'
    hq' (hrun _ hq') _ _ _ _ turn.script)).mono ?_
  rintro _ s' ⟨-, rval, p', newer, hp', hlog, hsuccess, hfailure⟩
  exact ⟨rval, p', newer, hp', hlog, hsuccess, fun hfailed hstate' =>
    hprefix.trans (hfailure hfailed hstate')⟩

/-- In every run from boot, upcalls have the function and the data that the
process has subscribed last. A subscribe call that succeeds leaves no upcall in
the queue that was scheduled before it; one that fails leaves everything in the
queue, unless the process faults when it is given the result. -/
theorem no_stale_upcall (contract : B.chip.mpu.Contract) (platform : Platform)
    {s s' : KernelState B} (hboot : s.Booted) {events : List KernelEvent}
    (hrun : runKernel platform events s = .ok ((), s')) :
    (∀ index p call id, s'.processes index = some p →
      .functionCall call ∈ p.tasks.toList → call.source = .driver id → (call.argument3, call.pc) =
          p.saved ⟨.upcall, id.driverNum, id.subscribeNum⟩ ∧
        p.saved ⟨.upcall, id.driverNum, id.subscribeNum⟩ =
          lastPassed index s'.log ⟨.upcall, id.driverNum, id.subscribeNum⟩) ∧
    (∀ index call id older, .functionCall index call :: older <:+ s'.log →
      call.source = .driver id → (call.argument3, call.pc) =
          lastPassed index older ⟨.upcall, id.driverNum, id.subscribeNum⟩) ∧
    ∀ index p turn driverNumber subdriverNumber upcallPtr appdata result s'',
      s'.processes index = some p → p.state = .running →
      (p.setupMpu.writeAppMemory turn.stores).switchTo.1 = some (.syscallFired
          (.subscribe driverNumber subdriverNumber upcallPtr appdata)) →
      runProcess platform index turn s' = .ok (result, s'') →
      ∃ rval p' newer, s''.processes index = some p' ∧ s''.log = newer ++ .handled index
          (.subscribe driverNumber subdriverNumber upcallPtr appdata) rval ::
            .switchedTo index .running :: s'.log ∧ (rval.isSuccess = true → ∀ call,
          .functionCall call ∈ p'.tasks.toList →
            call.source ≠ .driver ⟨driverNumber, subdriverNumber⟩) ∧
        (rval.isSuccess = false → p'.state = .running → p.tasks.toList <+: p'.tasks.toList) := by
  have hinv : SavedInvariant platform True s' :=
    runKernel_savedInvariant contract platform hboot (.inl trivial) hrun
  have hcalm' := hboot.calm_of_run hrun
  refine ⟨?_, ?_, ?_⟩
  · intro index p call id hp hmem hsource
    have hrunning : p.isRunning := by
      by_contra hstopped
      rw [(hcalm' index p hp).idle (by simpa using hstopped)] at hmem
      cases hmem
    exact ⟨hinv.fresh index p hp _ hmem call id rfl hsource,
      congrFun (hinv.passed index p hp hrunning) _⟩
  · intro index call id older hsuffix hsource
    exact hinv.calls index call older hsuffix call id rfl hsource
  · intro index p turn driverNumber subdriverNumber upcallPtr appdata result
      s'' hp hstate hfired hturn
    exact (Outcome.iff_of_ok hturn).mp (runProcess_subscribed hcalm' hp hstate hfired)

def queueAfter (platform : Platform) (events : List KernelEvent) (index : ℕ)
    (s : KernelState B) : Option (List Task) :=
  match runKernel platform events s with
  | .error _ => none
  | .ok (_, s') => (s'.processes index).map fun p => p.tasks.toList

/-- The process subscribes twice. The driver schedules an upcall after each
call. -/
def scheduleEvents : List KernelEvent :=
  let turn := smallTurn (some (smallDriver ⟨0, 0⟩))
  let schedule := .capsules [.enter 0 ⟨0, 0⟩ [.scheduleUpcall 0 1 2 3]]
  [.doProcess 0 [turn, turn], schedule, .doProcess 0 [turn], schedule]

/-- Only the upcall scheduled after the second call is in the queue, and it
has the function that was passed with that call. -/
theorem no_stale_upcall_small :
    queueAfter smallPlatform scheduleEvents 0 (bootState (smallArguments 1024) :
        KernelState (scriptedBoard subscribeThrice)) =
      some [.functionCall ⟨.driver ⟨1, 0⟩, 1, 2, 3, 8, 0x10201⟩] ∧
    ∃ s' p, runKernel smallPlatform scheduleEvents (bootState (smallArguments 1024) :
          KernelState (scriptedBoard subscribeThrice)) = .ok ((), s') ∧
      s'.processes 0 = some p ∧ (8, 0x10201) = p.saved ⟨.upcall, 1, 0⟩ := by
  have hfresh : ∀ s : KernelState (scriptedBoard subscribeThrice), s.Booted →
      queueAfter smallPlatform scheduleEvents 0 s =
        some [.functionCall ⟨.driver ⟨1, 0⟩, 1, 2, 3, 8, 0x10201⟩] →
      ∃ s' p, runKernel smallPlatform scheduleEvents s = .ok ((), s') ∧ s'.processes 0 = some p ∧
        (8, 0x10201) = p.saved ⟨.upcall, 1, 0⟩ := by
    intro s hboot hqueue
    unfold queueAfter at hqueue
    split at hqueue
    · cases hqueue
    next s' hrun =>
    obtain ⟨p, hp, htasks⟩ := Option.map_eq_some_iff.mp hqueue
    refine ⟨s', p, hrun, hp, ?_⟩
    exact ((no_stale_upcall unalignedMpuContract smallPlatform hboot
      hrun).1 0 p _ ⟨1, 0⟩ hp (by rw [htasks]; exact mem_cons_self) rfl).1
  have hqueue : queueAfter smallPlatform scheduleEvents 0 (bootState (smallArguments 1024) :
        KernelState (scriptedBoard subscribeThrice)) =
      some [.functionCall ⟨.driver ⟨1, 0⟩, 1, 2, 3, 8, 0x10201⟩] := by
    decide +kernel
  exact ⟨hqueue, hfresh _ (bootState_booted rfl) hqueue⟩

end TockKernel

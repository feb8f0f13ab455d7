import TockKernel.StaleUpcalls

/-!
# Yield-NoWait

`handle_syscall` decides what the flag of a Yield-NoWait says by looking at
whether the task queue is empty. Whether an upcall is run is decided later, by
`do_process`, which looks at one task at a time. The two agree exactly if the
queue comes to a function call.
-/

namespace TockKernel

open ProcessStandard KernelState Outcome List

variable {B : Board} {platform : Platform} {panics : Prop}
  {s s' : KernelState B} {index : ℕ} {p p' : ProcessStandard B}

/-! ## Turns of a yielded process -/

def Turn.Live (turn : Turn) : Prop :=
  (turn.remainingUs.all fun us => us ≤ minQuantaThresholdUs) = false ∧ turn.continueProcess = true

/-- Calls of `do_process` for the process, with one turn of its loop each. -/
def turnsOf (index : ℕ) (turns : List Turn) : List KernelEvent :=
  turns.map fun turn => .doProcess index [turn]

/-- Without any other event, the turns of the process lead to one upcall, which
the process then runs. -/
def UpcallFollows (platform : Platform) (index : ℕ) (s : KernelState B) : Prop :=
  ∃ n, ∀ turns : List Turn, turns.length = n → (∀ turn ∈ turns, turn.Live) → ∃ s' p' call,
      runKernel platform (turnsOf index turns) s = .ok ((), s') ∧
      s'.log = .functionCall index call :: s.log ∧
      s'.processes index = some p' ∧ p'.state = .running

/-- What the flag of a Yield-NoWait has to say: 0 and the process goes on, or 1
and an upcall follows. -/
def YieldTruthful (platform : Platform) (index : ℕ) (flag : Usize) (s : KernelState B) : Prop :=
  ∃ p, s.processes index = some p ∧ (p.memory flag = 0 ∧ p.state = .running ∨
      p.memory flag = 1 ∧ UpcallFollows platform index s)

/-- The process is in the same state, with the same context saved for its next
turn. -/
structure ProcessStandard.SameContext (p p' : ProcessStandard B) : Prop where
  state : p'.state = p.state
  memStart : p'.memStart = p.memStart
  appBreak : p'.appBreak = p.appBreak
  storedState : p'.storedState = p.storedState

theorem ProcessStandard.SameContext.trans {p'' : ProcessStandard B}
    (h : p.SameContext p') (h' : p'.SameContext p'') : p.SameContext p'' :=
  ⟨h'.state.trans h.state, h'.memStart.trans h.memStart,
    h'.appBreak.trans h.appBreak, h'.storedState.trans h.storedState⟩

theorem sameContext_newProcessGrant (p : ProcessStandard B) (grantNum : Usize)
    (decl : GrantDecl) : p.SameContext (p.newProcessGrant grantNum decl).2 := by
  rcases p.newProcessGrant_cases grantNum decl with
    ⟨-, hfound⟩ | ⟨_, _, -, herror⟩ | ⟨_, -, -, -, -, hnew⟩
  · rw [hfound]
    exact ⟨rfl, rfl, rfl, rfl⟩
  · rw [herror]
    exact ⟨rfl, rfl, rfl, rfl⟩
  · rw [hnew]
    exact ⟨rfl, rfl, rfl, rfl⟩

theorem sameContext_ipcNotify {q q' : ProcessStandard B}
    (hp : p.Calm platform panics) (hq : q.Calm platform panics)
    {grantNum : Usize} {decl : GrantDecl} {pId qId : Usize}
    {kind : IpcUpcallType} {result : Except ProcessError Unit}
    (hnotify : ipcNotify grantNum decl p q pId qId kind =
      .ok (result, p', q')) : p.SameContext p' ∧ q.SameContext q' := by
  have hpNew := sameContext_newProcessGrant p grantNum decl
  have hqNew := sameContext_newProcessGrant q grantNum decl
  rcases ipcNotify_outcome hp hq grantNum decl pId qId kind with
    ⟨_, p1, hp1, hres⟩ | ⟨p1, _, q1, hp1, hq1, hres⟩ |
    ⟨p1, q1, entry, _, len, ptr, hp1, hq1, -, hp2, hres⟩
  all_goals
    rw [hres] at hnotify
    rw [hp1] at hpNew
    cases hnotify
  · exact ⟨hpNew, ⟨rfl, rfl, rfl, rfl⟩⟩
  · rw [hq1] at hqNew
    exact ⟨hpNew, hqNew⟩
  · rw [hq1] at hqNew
    refine ⟨hpNew.trans ?_, hqNew⟩
    obtain ⟨_, _, hframe⟩ := scheduleUpcall_frame
      (.readFromBase p1.memory entry.grantPtr grantNum) decl.driverNum
      (kind.toSchedule pId qId) qId len ptr
    rw [hframe]
    rcases hp2 with rfl | rfl
    · exact ⟨rfl, rfl, rfl, rfl⟩
    obtain ⟨_, _, hregion⟩ := p1.addMpuRegion_frame ptr len len
    rw [hregion]
    exact ⟨rfl, rfl, rfl, rfl⟩

theorem ipcScheduleUpcall_context (hcalm : s.All (Calm platform panics))
    (hp : s.processes index = some p) (grantNum : Usize)
    (scheduleOn calledFrom : ProcessId) (kind : IpcUpcallType) :
    Outcome (ipcScheduleUpcall platform grantNum scheduleOn calledFrom kind)
      (fun _ s' => ∃ p', s'.processes index = some p' ∧ p.SameContext p') (fun _ => True) s := by
  have hsame : p.SameContext p := ⟨rfl, rfl, rfl, rfl⟩
  simp only [Outcome, ipcScheduleUpcall]
  cases hq : s.getProcess scheduleOn with
  | none => exact ⟨p, hp, hsame⟩
  | some q =>
    cases hr : s.getProcess calledFrom with
    | none => exact ⟨p, hp, hsame⟩
    | some r =>
      simp only
      have hq := getProcess_eq_some hq
      have hr := getProcess_eq_some hr
      split_ifs with hids
      · exact ⟨p, hp, hsame⟩
      cases hnotify : ipcNotify grantNum (platform.grants grantNum.toNat)
          q r scheduleOn.index calledFrom.index kind with
      | error panic => trivial
      | ok result =>
        obtain ⟨result, q', r'⟩ := result
        obtain ⟨hq', hr'⟩ := sameContext_ipcNotify (hcalm _ q hq) (hcalm _ r hr) hnotify
        by_cases hcalled : index = calledFrom.index.toNat
        · subst hcalled
          cases hp.symm.trans hr
          exact ⟨r', processes_setProcess, hr'⟩
        by_cases hscheduled : index = scheduleOn.index.toNat
        · subst hscheduled
          cases hp.symm.trans hq
          refine ⟨q', ?_, hq'⟩
          rw [processes_setProcess_of_ne hcalled]
          exact processes_setProcess
        refine ⟨p, ?_, hsame⟩
        rw [processes_setProcess_of_ne hcalled, processes_setProcess_of_ne hscheduled]
        exact hp

def ProcessStandard.Accepts (p : ProcessStandard B) : Prop :=
  ∀ call, (B.chip.ukb.setProcessFunction p.memStart p.appBreak p.storedState call).1 = .ok ()

theorem ProcessStandard.SameContext.accepts (h : p.SameContext p')
    (haccepts : p.Accepts) : p'.Accepts := by
  intro call
  rw [h.memStart, h.appBreak, h.storedState]
  exact haccepts call

variable {fail : Panic → Prop} {turn : Turn} {call : FunctionCall}
  {rest : List Task}

/-- The kernel takes a task that is no function call off the queue: a return
value is dropped, and a notification goes to the IPC driver. -/
inductive TakesTask (platform : Platform) (index : ℕ) (s : KernelState B) :
    KernelState B → Prop where
  | returnValue {p : ProcessStandard B} {arguments : ReturnArguments} {rest : List Task} :
      s.processes index = some p →
      p.tasks.toList = .returnValue arguments :: rest →
      TakesTask platform index s (s.setProcess index p.dequeueTask.2)
  | ipc {p : ProcessStandard B} {caller : ProcessId} {kind : IpcUpcallType} {rest : List Task}
      {grantNum : Usize} {result : Except ProcessError Unit} {s' : KernelState B} :
      s.processes index = some p →
      p.tasks.toList = .ipc caller kind :: rest →
      platform.ipc = some grantNum →
      ipcScheduleUpcall platform grantNum p.processId caller kind
        (s.setProcess index p.dequeueTask.2) = .ok (result, s') →
      TakesTask platform index s s'

/-- The queue comes to a function call, which may be one that the IPC driver
enqueues for a notification in front of it. -/
inductive ComesToCall (platform : Platform) (index : ℕ) : KernelState B → Prop where
  | call {s : KernelState B} {p : ProcessStandard B} {call : FunctionCall} {rest : List Task} :
      s.processes index = some p →
      p.tasks.toList = .functionCall call :: rest →
      ComesToCall platform index s
  | next {s s' : KernelState B} : TakesTask platform index s s' → ComesToCall platform index s' →
      ComesToCall platform index s

theorem TakesTask.runTask (htakes : TakesTask platform index s s') (turn : Turn) :
    Outcome (runTask platform index turn) (fun _ t => t = s') fail s := by
  cases htakes with
  | @returnValue p arguments rest hp htasks =>
    have hhead : p.dequeueTask.1 = some (.returnValue arguments) := by
      rw [show p.dequeueTask.1 = _ from p.tasks.dequeue_fst, htasks]
      rfl
    refine bind (onProcess_of_some hp ?_)
    simp only [hhead]
    exact pure rfl
  | @ipc p caller kind rest grantNum result _ hp htasks hgrant hnotified =>
    have hhead : p.dequeueTask.1 = some (.ipc caller kind) := by
      rw [show p.dequeueTask.1 = _ from p.tasks.dequeue_fst, htasks]
      rfl
    refine bind (onProcess_of_some hp ?_)
    simp only [hhead, hgrant]
    refine bind (onProcess_of_some processes_setProcess ?_)
    rw [setProcess_self processes_setProcess]
    exact bind ((iff_of_ok hnotified).mpr (pure rfl))

theorem handleEvent_yielded {post : KernelState B → Prop} (hp : s.processes index = some p)
    (hstate : p.state = .yielded) (htasks : p.tasks.toList ≠ []) (hlive : turn.Live)
    (hturn : Outcome (runTask platform index turn) (fun _ s' => post s') fail s) :
    Outcome (handleEvent platform (.doProcess index [turn])) (fun _ s' => post s') fail s := by
  have hready : p.ready := by
    unfold ready
    rw [Bool.or_eq_true, RingBuffer.hasElements_iff]
    exact .inl htasks
  have hloop : Outcome (doProcessTurn platform index turn) (fun _ s' => post s') fail s := by
    unfold doProcessTurn
    rw [hlive.1, hlive.2]
    refine bind (onProcess_of_some hp ?_)
    simp only [hready, setProcess_self hp]
    refine bind (onProcess_of_some hp ?_)
    simp only [hstate, setProcess_self hp]
    exact hturn
  have hdo : Outcome (doProcess platform index [turn]) (fun _ s' => post s') fail s := by
    refine hloop.seq fun reason s' hpost => ?_
    cases reason with
    | none | some reason => exact pure hpost
  exact hdo.seq fun _ _ hpost => pure hpost

theorem setProcessFunction_of_accepts (haccepts : p.Accepts)
    (call : FunctionCall) (kernel : Kernel) : ∃ storedState, p.setProcessFunction call kernel =
      .ok ({ p with storedState := storedState, state := .running }, kernel) := by
  have haccepted := haccepts call
  unfold ProcessStandard.setProcessFunction runIfAccepted
  rcases houtcome : B.chip.ukb.setProcessFunction p.memStart p.appBreak
    p.storedState call with ⟨_ | _, storedState⟩
  · rw [houtcome] at haccepted
    cases haccepted
  · exact ⟨storedState, rfl⟩

section

variable (hp : s.processes index = some p)
include hp

theorem runTask_functionCall
    (htasks : p.tasks.toList = .functionCall call :: rest) (haccepts : p.Accepts) (turn : Turn) :
    Outcome (runTask platform index turn) (fun _ s' =>
      s'.log = .functionCall index call :: s.log ∧
      ∃ p', s'.processes index = some p' ∧ p'.state = .running)
      (fun _ => False) s := by
  have hhead : p.dequeueTask.1 = some (.functionCall call) := by
    rw [show p.dequeueTask.1 = _ from p.tasks.dequeue_fst, htasks]
    rfl
  refine bind (onProcess_of_some hp ?_)
  simp only [hhead]
  refine bind (bind (modify (bind (onProcess_of_some processes_setProcess ?_))))
  have haccepts' : (p.dequeueTask.2.writeAppMemory turn.script.stores).Accepts := haccepts
  refine onLifecycle_outcome (fun hnone => ?_) (fun q panic hq herror => ?_)
    (fun q q' kernel hq hok => ?_)
  · cases processes_setProcess.symm.trans hnone
  · cases processes_setProcess.symm.trans hq
    obtain ⟨_, haccepted⟩ := setProcessFunction_of_accepts haccepts' call _
    cases haccepted.symm.trans herror
  · cases processes_setProcess.symm.trans hq
    obtain ⟨_, haccepted⟩ := setProcessFunction_of_accepts haccepts' call _
    cases haccepted.symm.trans hok
    rw [commit_same]
    exact pure ⟨rfl, _, processes_setProcess, rfl⟩

/-- What a turn leaves of a process whose next task is no function call. -/
structure TaskDropped (platform : Platform) (panics : Prop) (index : ℕ)
    (p : ProcessStandard B) (rest : List Task) (s s' : KernelState B) : Prop where
  log : s'.log = s.log
  calm : s'.All (Calm platform panics)
  process : ∃ p', s'.processes index = some p' ∧ p.SameContext p' ∧ rest <+: p'.tasks.toList

theorem TakesTask.dropped {task : Task} (hcalm : s.All (Calm platform panics))
    (htasks : p.tasks.toList = task :: rest) (htakes : TakesTask platform index s s') :
    TaskDropped platform panics index p rest s s' := by
  have hdropped : Works platform True s (s.setProcess index p.dequeueTask.2) :=
    works_of_processWork hp (dequeueTask_work p)
  have hcalm1 := hdropped.calm hcalm
  have hrest : p.dequeueTask.2.tasks.toList = rest := by
    rw [show p.dequeueTask.2.tasks.toList = _ from p.tasks.toList_dequeue, htasks]
    rfl
  cases htakes with
  | returnValue hq =>
    cases hp.symm.trans hq
    exact ⟨rfl, hcalm1, _, processes_setProcess, ⟨rfl, rfl, rfl, rfl⟩, by rw [hrest]⟩
  | @ipc q caller kind _ grantNum _ _ hq _ _ hnotified =>
    cases hp.symm.trans hq
    have hworks : OnlyWorks platform False (fun _ => False) _ _ :=
      ipcScheduleUpcall_works hcalm1 grantNum p.processId caller kind
    replace hworks := (iff_of_ok hnotified).mp hworks
    obtain ⟨p', hp', hcontext⟩ := (iff_of_ok hnotified).mp (ipcScheduleUpcall_context hcalm1
      processes_setProcess grantNum p.processId caller kind)
    obtain ⟨_, hp'', hprefix⟩ := hworks.tasks_prefix processes_setProcess
    cases hp'.symm.trans hp''
    rw [hrest] at hprefix
    refine ⟨hworks.log, hworks.calm hcalm1, p', hp', ?_, hprefix⟩
    exact ⟨hcontext.state, hcontext.memStart, hcontext.appBreak, hcontext.storedState⟩

theorem exists_takesTask {task : Task} (hcalm : s.All (Calm platform panics))
    (htasks : p.tasks.toList = task :: rest) (hcall : ∀ call, task ≠ .functionCall call) :
    ∃ s', TakesTask platform index s s' := by
  cases task with
  | functionCall call => exact absurd rfl (hcall call)
  | returnValue arguments => exact ⟨_, .returnValue hp htasks⟩
  | ipc caller kind =>
    obtain ⟨grantNum, hgrant⟩ := Option.isSome_iff_exists.mp
      ((hcalm index p hp).ipc caller kind (by simp [htasks]))
    have hcalm1 := (works_of_processWork hp (dequeueTask_work p)).calm hcalm
    have hworks : OnlyWorks platform False (fun _ => False) _ _ :=
      ipcScheduleUpcall_works hcalm1 grantNum p.processId caller kind
    obtain ⟨_, s', hnotified, -⟩ := hworks.exists_ok
    exact ⟨s', .ipc hp htasks hgrant hnotified⟩

/-- A function call in the queue is come to: each task before it leaves the rest
of the queue in place. -/
theorem comesToCall_of_mem (hcalm : s.All (Calm platform panics))
    (hmem : .functionCall call ∈ p.tasks.toList) : ComesToCall platform index s := by
  obtain ⟨before, after, hsplit⟩ := append_of_mem hmem
  have hprefix : before ++ .functionCall call :: after <+: p.tasks.toList := by rw [hsplit]
  clear hsplit hmem
  induction before generalizing s p with
  | nil =>
    obtain ⟨rest, hrest⟩ := hprefix
    exact .call hp hrest.symm
  | cons task before ih =>
    obtain ⟨rest, hrest⟩ := hprefix
    by_cases hcall : ∃ call, task = .functionCall call
    · obtain ⟨call, rfl⟩ := hcall
      exact .call hp hrest.symm
    obtain ⟨s1, htakes⟩ := exists_takesTask hp hcalm hrest.symm (not_exists.mp hcall)
    obtain ⟨-, hcalm1, _, hp1, -, hprefix⟩ := htakes.dropped hp hcalm hrest.symm
    exact .next htakes (ih hp1 hcalm1 ((prefix_append _ rest).trans hprefix))

/-! ## The turns after the call -/

variable (hstate : p.state = .yielded)
include hstate

theorem TakesTask.handleEvent (htakes : TakesTask platform index s s') (hlive : turn.Live) :
    Outcome (handleEvent platform (.doProcess index [turn])) (fun _ t => t = s') fail s := by
  refine handleEvent_yielded hp hstate ?_ hlive (htakes.runTask turn)
  cases htakes with
  | returnValue hq htasks | ipc hq htasks =>
    cases hp.symm.trans hq
    simp [htasks]

theorem upcallFollows_of_comesToCall (hcalm : s.All (Calm platform panics))
    (haccepts : p.Accepts) (hcomes : ComesToCall platform index s) :
    UpcallFollows platform index s := by
  induction hcomes generalizing p with
  | @call s _ call _ hq htasks =>
    cases hp.symm.trans hq
    refine ⟨1, fun turns hlen hlive => ?_⟩
    obtain ⟨turn, rfl⟩ := length_eq_one_iff.mp hlen
    have hturns : Outcome (runKernel platform (turnsOf index [turn]))
        (fun _ s' => s'.log = .functionCall index call :: s.log ∧
          ∃ p', s'.processes index = some p' ∧ p'.state = .running) (fun _ => False) s := by
      refine (handleEvent_yielded hp hstate (by simp [htasks]) (hlive turn mem_cons_self)
        (runTask_functionCall hp htasks haccepts turn)).seq ?_
      exact fun _ _ h => pure h
    obtain ⟨_, s', hrun, hlog, p', hp', hstate'⟩ := hturns.exists_ok
    exact ⟨s', p', call, hrun, hlog, hp', hstate'⟩
  | @next s s1 htakes _ ih =>
    have htasks : ∃ task rest, p.tasks.toList = task :: rest := by
      cases htakes with
      | returnValue hq htasks | ipc hq htasks =>
        cases hp.symm.trans hq
        exact ⟨_, _, htasks⟩
    obtain ⟨task, rest, htasks⟩ := htasks
    obtain ⟨hlog, hcalm1, _, hp1, hcontext, -⟩ := htakes.dropped hp hcalm htasks
    obtain ⟨n, hfollows⟩ := ih hp1 (hcontext.state.trans hstate) hcalm1 (hcontext.accepts haccepts)
    refine ⟨n + 1, fun turns hlen hlive => ?_⟩
    obtain ⟨turn, turns, rfl⟩ := exists_cons_of_length_eq_add_one hlen
    obtain ⟨s', p', call, hrun, hlog', hp', hstate'⟩ := hfollows turns (by simpa using hlen)
      fun turn hmem => hlive turn (mem_cons_of_mem _ hmem)
    have hturns : Outcome (runKernel platform (turnsOf index (turn :: turns)))
        (fun _ t => t = s') (fun _ => False) s := by
      refine (htakes.handleEvent hp hstate (hlive turn mem_cons_self)).seq ?_
      rintro _ t rfl
      exact (iff_of_ok hrun).mpr rfl
    obtain ⟨_, _, hok, rfl⟩ := hturns.exists_ok
    exact ⟨_, p', call, hok, hlog ▸ hlog', hp', hstate'⟩

theorem handleEvent_idle (htasks : p.tasks.toList = []) (hlive : turn.Live) :
    Outcome (handleEvent platform (.doProcess index [turn])) (fun _ s' => s' = s) fail s := by
  have hready : p.ready = false := by
    rw [Bool.eq_false_iff]
    intro hready
    unfold ready at hready
    rw [Bool.or_eq_true, RingBuffer.hasElements_iff, hstate, htasks] at hready
    rcases hready with hready | hready
    · exact hready rfl
    · cases hready
  have hloop : Outcome (doProcessTurn platform index turn)
      (fun reason s' => reason = some .noWorkLeft ∧ s' = s) fail s := by
    unfold doProcessTurn
    rw [hlive.1, hlive.2]
    refine bind (onProcess_of_some hp ?_)
    simp only [hready, setProcess_self hp]
    exact pure ⟨rfl, rfl⟩
  have hdo : Outcome (doProcess platform index [turn]) (fun _ s' => s' = s) fail s := by
    refine hloop.seq fun reason s' h => ?_
    rw [h.1]
    exact pure h.2
  exact hdo.seq fun _ _ h => pure h

theorem runKernel_waits {turns : List Turn} (hcalm : s.All (Calm platform panics))
    (hnever : ¬ ComesToCall platform index s) (hlive : ∀ turn ∈ turns, turn.Live) :
    Outcome (runKernel platform (turnsOf index turns)) (fun _ s' => s'.log = s.log) fail s := by
  induction turns generalizing s p with
  | nil => exact pure rfl
  | cons turn turns ih =>
    have hturn := hlive turn mem_cons_self
    have hlive' : ∀ turn ∈ turns, turn.Live := fun turn hmem => hlive turn (mem_cons_of_mem _ hmem)
    cases htasks : p.tasks.toList with
    | nil =>
      refine (handleEvent_idle hp hstate htasks hturn).seq ?_
      rintro _ s' rfl
      exact ih hp hstate hcalm hnever hlive'
    | cons task rest =>
      obtain ⟨s1, htakes⟩ : ∃ s1, TakesTask platform index s s1 := by
        refine exists_takesTask hp hcalm htasks ?_
        rintro call rfl
        exact hnever (.call hp htasks)
      obtain ⟨hlog, hcalm1, _, hp1, hcontext, -⟩ := htakes.dropped hp hcalm htasks
      refine (htakes.handleEvent hp hstate hturn).seq ?_
      rintro _ s' rfl
      rw [← hlog]
      exact ih hp1 (hcontext.state.trans hstate) hcalm1 (fun h => hnever (.next htakes h)) hlive'

def liveTurn : Turn where
  remainingUs := some 10000
  continueProcess := true
  stores _ := none
  faultHandled := false
  expired := false
  script := {
    filter := fun _ => .ok ()
    driver := none
    stores := fun _ => none }

/-- An upcall follows exactly if the queue comes to a function call. -/
theorem upcallFollows_iff (hcalm : s.All (Calm platform panics)) (haccepts : p.Accepts) :
    UpcallFollows platform index s ↔ ComesToCall platform index s := by
  refine ⟨fun ⟨n, hfollows⟩ => ?_, upcallFollows_of_comesToCall hp hstate hcalm haccepts⟩
  by_contra hnever
  have hlive : ∀ turn ∈ replicate n liveTurn, turn.Live := by
    intro turn hmem
    rw [eq_of_mem_replicate hmem]
    exact ⟨by decide, rfl⟩
  obtain ⟨s', -, _, hrun, hlog, -⟩ := hfollows _ length_replicate hlive
  have hwaits : Outcome (runKernel platform
      (turnsOf index (replicate n liveTurn))) (fun _ s' => s'.log = s.log)
      (fun _ => False) s := runKernel_waits hp hstate hcalm hnever hlive
  have hlen := congrArg length (hlog.symm.trans ((iff_of_ok hrun).mp hwaits))
  simp at hlen

end

/-! ## The call -/

theorem switchTo_frame (p : ProcessStandard B) : ∃ storedState debug,
    p.switchTo.2 = { p with storedState := storedState, debug := debug } := by
  unfold switchTo noteStackPointer
  split_ifs
  · exact ⟨_, _, rfl⟩
  simp only
  split
  · exact ⟨_, _, rfl⟩
  · split_ifs
    all_goals exact ⟨_, _, rfl⟩

def ProcessStandard.afterYieldNoWait (p : ProcessStandard B) (flag : Usize) : ProcessStandard B :=
  if p.tasks.toList = [] then
    { p with memory := Function.update p.memory flag 0 }
  else
    { p with memory := Function.update p.memory flag 1, state := .yielded }

theorem handleYield_noWait (hp : s.processes index = some p)
    (hstate : p.state = .running) {flag : Usize}
    (hflag : p.inAppOwnedMemory flag 1) (paramB : Usize) : Outcome (handleYield index 0 flag paramB)
      (fun _ s' => s' = s.setProcess index (p.afterYieldNoWait flag)) fail s := by
  refine bind (onProcess_of_some hp ?_)
  rw [setProcess_self hp]
  refine bind (onProcess_of_some hp ?_)
  unfold afterYieldNoWait
  cases htasks : p.hasTasks with
  | false =>
    have hempty : p.tasks.toList = [] := by
      by_contra hne
      exact Bool.false_ne_true (htasks.symm.trans (p.tasks.hasElements_iff.mpr hne))
    rw [if_pos hempty]
    simp only [setByte, hflag]
    exact pure rfl
  | true =>
    rw [if_neg (p.tasks.hasElements_iff.mp htasks)]
    simp only [setByte, hflag]
    refine onProcess_of_some processes_setProcess ?_
    rw [setProcess_setProcess]
    simp only [hstate]
    rfl

theorem afterSwitch_frame (p : ProcessStandard B) (turn : Turn) :
    ∃ mpuConfig memory storedState debug, p.afterSwitch turn = { p with
      mpuConfig := mpuConfig
      memory := memory
      storedState := storedState
      debug := debug } := by
  obtain ⟨_, _, hframe⟩ := switchTo_frame (p.setupMpu.writeAppMemory turn.stores)
  unfold afterSwitch
  rw [hframe]
  exact ⟨_, _, _, _, rfl⟩

theorem runProcess_yieldNoWait (hp : s.processes index = some p) (hstate : p.state = .running)
    {flag paramB : Usize}
    (hfired : (p.setupMpu.writeAppMemory turn.stores).switchTo.1 =
      some (.syscallFired (.yield 0 flag paramB)))
    (hflag : p.inAppOwnedMemory flag 1) :
    Outcome (runProcess platform index turn) (fun reason s' =>
      reason = none ∧ ∃ debug,
        s' = (s.setProcess index ({ p.afterSwitch turn with
          debug := debug }.afterYieldNoWait flag)).record (.switchedTo index .running)) fail s := by
  let q := (p.afterSwitch turn).debugSyscallCalled (.yield 0 flag paramB)
  obtain ⟨_, _, _, _, hframe⟩ := afterSwitch_frame p turn
  have hstate' : q.state = .running := by
    rw [show q.state = (p.afterSwitch turn).state from rfl, hframe]
    exact hstate
  have hflag' : q.inAppOwnedMemory flag 1 := by
    rw [show q.inAppOwnedMemory flag 1 =
      (p.afterSwitch turn).inAppOwnedMemory flag 1 from rfl, hframe]
    exact hflag
  refine runProcess_fired hp hstate hfired ?_
  refine bind (onProcess_of_some processes_setProcess ?_)
  refine (handleYield_noWait processes_setProcess hstate' hflag' paramB).mono ?_
  rintro _ s' rfl
  refine ⟨q.debug, ?_⟩
  rw [setProcess_setProcess]
  change (((s.setProcess index (p.afterSwitch turn)).setProcess index _).record _) = _
  rw [setProcess_setProcess]
  rfl

/-- The process makes a Yield-NoWait call, with a flag in its memory and with
room on its stack for an upcall. The flag is truthful exactly if its queue is
empty or comes to a function call, which it does whenever there is one in it. -/
theorem yield_no_wait_truthful (platform : Platform) {s s' : KernelState B}
    (hboot : s.Booted) {events : List KernelEvent}
    (hrun : runKernel platform events s = .ok ((), s')) {index : ℕ}
    {p : ProcessStandard B} (hp : s'.processes index = some p)
    (hstate : p.state = .running) {turn : Turn} {flag paramB : Usize}
    (hfired : (p.setupMpu.writeAppMemory turn.stores).switchTo.1 =
      some (.syscallFired (.yield 0 flag paramB)))
    (hflag : p.inAppOwnedMemory flag 1 = true) (haccepts : (p.afterSwitch turn).Accepts) :
    ∃ s'', runProcess platform index turn s' = .ok (none, s'') ∧
      (p.tasks.toList = [] ∨ (∃ call, .functionCall call ∈ p.tasks.toList) →
        YieldTruthful platform index flag s'') ∧
      (YieldTruthful platform index flag s'' ↔
        p.tasks.toList = [] ∨ ComesToCall platform index s'') := by
  have hcalm : s'.All (Calm platform True) := hboot.calm_of_run hrun
  have hyield : Outcome (runProcess platform index turn) (fun reason s'' =>
      reason = none ∧ ∃ debug,
        s'' = (s'.setProcess index ({ p.afterSwitch turn with
          debug := debug }.afterYieldNoWait flag)).record
            (.switchedTo index .running)) (fun _ => False) s' :=
    runProcess_yieldNoWait hp hstate hfired hflag
  obtain ⟨_, s'', hturn, rfl, debug, hs''⟩ := hyield.exists_ok
  refine ⟨s'', hturn, ?_⟩
  obtain ⟨mpuConfig, memory, storedState, _, hframe⟩ := afterSwitch_frame p turn
  let q : ProcessStandard B := { p.afterSwitch turn with debug := debug }
  have hq : q = { p with
      mpuConfig := mpuConfig
      memory := memory
      storedState := storedState
      debug := debug } := by
    change ({ p.afterSwitch turn with debug := debug } : ProcessStandard B) = _
    rw [hframe]
  have htasks : q.tasks.toList = p.tasks.toList := by rw [hq]
  have hq' : q.state = .running := by
    rw [hq]
    exact hstate
  have hprocess : s''.processes index = some (q.afterYieldNoWait flag) := by
    rw [hs'']
    exact processes_setProcess
  by_cases hempty : p.tasks.toList = []
  · have htruthful : YieldTruthful platform index flag s'' := by
      refine ⟨_, hprocess, .inl ?_⟩
      rw [afterYieldNoWait, if_pos (htasks.trans hempty)]
      exact ⟨Function.update_self .., hq'⟩
    exact ⟨fun _ => htruthful, fun _ => .inl hempty, fun _ => htruthful⟩
  -- The process is left yielded, with its queue as it was.
  have hyielded : q.afterYieldNoWait flag = { q with
      memory := Function.update q.memory flag 1, state := .yielded } := by
    rw [afterYieldNoWait, if_neg (by rwa [htasks])]
  rw [hyielded] at hprocess
  have hcalm'' : s''.All (Calm platform True) := by
    rw [hs'']
    refine hcalm.setProcess ?_
    rw [hyielded, hq]
    exact (hcalm index p hp).of_same (isRunning_of_running hstate).symm rfl rfl rfl
  have hfollows := upcallFollows_iff hprocess rfl hcalm'' haccepts
  have htruthful : YieldTruthful platform index flag s'' ↔ ComesToCall platform index s'' := by
    rw [← hfollows]
    refine ⟨?_, fun h => ⟨_, hprocess, .inr ⟨Function.update_self .., h⟩⟩⟩
    rintro ⟨r, hr, hcase⟩
    cases hprocess.symm.trans hr
    rcases hcase with ⟨-, hrunning⟩ | ⟨-, h⟩
    · cases hrunning
    · exact h
  rw [htruthful]
  refine ⟨?_, .inr, fun h => h.resolve_left hempty⟩
  rintro (hnone | ⟨call, hmem⟩)
  · exact absurd hnone hempty
  · rw [← htasks] at hmem
    exact comesToCall_of_mem hprocess hcalm'' hmem

/-! ## Concrete runs -/

def Task.isFunctionCall : Task → Bool
  | .functionCall _ => true
  | _ => false

/-- The process has been left running by the events and will make a
Yield-NoWait call, with a function call in its queue. -/
def yieldsNext (platform : Platform) (events : List KernelEvent) (index : ℕ)
    (turn : Turn) (flag : Usize) (s : KernelState B) : Bool :=
  (processAfter platform events index s).any fun p =>
    p.state == .running &&
    (p.setupMpu.writeAppMemory turn.stores).switchTo.1 == some (.syscallFired (.yield 0 flag 0)) &&
    p.inAppOwnedMemory flag 1 &&
    p.tasks.toList.any Task.isFunctionCall

def subscribeThenYield : List ContextSwitchReason :=
  [.syscallFired (.subscribe 1 0 0x10101 7), .syscallFired (.yield 0 0x20000000 0)]

def upcallEvents : List KernelEvent :=
  let turn := smallTurn (some (smallDriver ⟨0, 0⟩))
  [.doProcess 0 [turn, turn], .capsules [.enter 0 ⟨0, 0⟩ [.scheduleUpcall 0 1 2 3]]]

theorem yield_no_wait_truthful_small : ∃ s' s'', runKernel smallPlatform upcallEvents
        (bootState (smallArguments 1024) :
          KernelState (scriptedBoard subscribeThenYield)) = .ok ((), s') ∧
      runProcess smallPlatform 0 liveTurn s' = .ok (none, s'') ∧
      YieldTruthful smallPlatform 0 0x20000000 s'' := by
  have htruthful : ∀ s : KernelState (scriptedBoard subscribeThenYield), s.Booted →
      yieldsNext smallPlatform upcallEvents 0 liveTurn 0x20000000 s →
      ∃ s' s'', runKernel smallPlatform upcallEvents s = .ok ((), s') ∧
        runProcess smallPlatform 0 liveTurn s' = .ok (none, s'') ∧
        YieldTruthful smallPlatform 0 0x20000000 s'' := by
    intro s hboot hyields
    unfold yieldsNext at hyields
    cases hafter : processAfter smallPlatform upcallEvents 0 s with
    | none =>
      rw [hafter] at hyields
      cases hyields
    | some p =>
      obtain ⟨s', hrun, hp⟩ := exists_of_processAfter hafter
      rw [hafter, Option.any_some, Bool.and_eq_true, Bool.and_eq_true,
        Bool.and_eq_true, beq_iff_eq, beq_iff_eq, any_eq_true]
        at hyields
      obtain ⟨⟨⟨hstate, hfired⟩, hflag⟩, task, hmem, htask⟩ := hyields
      cases task with
      | returnValue _ | ipc _ _ => cases htask
      | functionCall call =>
        obtain ⟨s'', hturn, htruthful, -⟩ :=
          yield_no_wait_truthful smallPlatform hboot hrun hp hstate hfired hflag (fun _ => rfl)
        exact ⟨s', s'', hrun, hturn, htruthful (.inr ⟨call, hmem⟩)⟩
  exact htruthful _ (bootState_booted rfl) (by decide +kernel)

def observeAfter (platform : Platform) (events : List KernelEvent)
    (index : ℕ) (flag : Usize) (s : KernelState B) :
    Option (BitVec 8 × State × List Task × List LogEntry) :=
  match runKernel platform events s with
  | .error _ => none
  | .ok (_, s') => (s'.processes index).map fun p =>
    (p.memory flag, p.state, p.tasks.toList, s'.log)

/-- The driver schedules an upcall that the process has not subscribed, and the
process makes a Yield-NoWait call. -/
def nullUpcallEvents : List KernelEvent :=
  let turn := smallTurn (some (smallDriver ⟨0, 0⟩))
  [.doProcess 0 [turn], .capsules [.enter 0 ⟨0, 0⟩ [.scheduleUpcall 0 1 2 3]],
    .doProcess 0 [turn], .doProcess 0 [turn], .doProcess 0 [turn]]

/-- The flag is 1, but the process has run no upcall and waits for one with an
empty queue. -/
theorem yield_no_wait_blocks : (bootState (smallArguments 1024) : KernelState (scriptedBoard
      [.syscallFired (.yield 0 0x20000000 0)])).Booted ∧
    observeAfter smallPlatform nullUpcallEvents 0 0x20000000
      (bootState (smallArguments 1024) : KernelState (scriptedBoard
        [.syscallFired (.yield 0 0x20000000 0)])) =
      some (1, .yielded, [], [.switchedTo 0 .running, .functionCall 0
        ⟨.kernel, 0x10040, 0x20000000, 0x6bc, 0x20000020, 0x10040⟩]) :=
  ⟨bootState_booted rfl, by decide +kernel⟩

end TockKernel

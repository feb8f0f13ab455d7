import TockKernel.GrantEntry
import TockKernel.KernelRuns

/-!
# The scheduler runs only processes that can run

Runs of the kernel from its state after boot, when every process of the table
has just been created. Processes that are faulted or terminated have nothing
in their queue, so that the panics of `do_process` are out of reach, and
control is handed only to processes in the `Running` state.
-/

namespace TockKernel

open ProcessStandard

variable {B : Board} {platform : Platform} {rejects : Prop}
  {s s' : KernelState B}

/-! ## Boot -/

/-- Every process of the table has just been created for its slot, and the
kernel has done nothing yet. -/
structure KernelState.Booted (s : KernelState B) : Prop where
  created : ∀ index p, s.processes index = some p → ∃ arguments kernel kernel' unused,
      create arguments kernel = .ok (.ok (p, unused), kernel') ∧ arguments.index.toNat = index
  log : s.log = []

def bootState (arguments : CreateArguments) : KernelState B :=
  match create arguments ⟨0⟩ with
  | .ok (.ok (p, _), kernel) =>
    KernelState.setProcess ⟨fun _ => none, kernel, []⟩ 0 p
  | .ok (.error _, kernel) => ⟨fun _ => none, kernel, []⟩
  | .error _ => ⟨fun _ => none, ⟨0⟩, []⟩

variable {arguments : CreateArguments}

theorem bootState_booted (hindex : arguments.index = 0) :
    (bootState arguments : KernelState B).Booted := by
  unfold bootState
  split
  · next p unused kernel hcreate =>
      refine ⟨fun index q hq => ?_, rfl⟩
      by_cases hzero : index = 0
      · subst hzero
        cases KernelState.processes_setProcess.symm.trans hq
        exact ⟨arguments, _, kernel, unused, hcreate, by rw [hindex]; rfl⟩
      · rw [KernelState.processes_setProcess_of_ne hzero] at hq
        cases hq
  all_goals exact ⟨fun _ _ hq => (nomatch hq), rfl⟩

section

variable {kernel kernel' : Kernel} {p : ProcessStandard B}
  {unused : MemorySlice}
  (hcreate : create arguments kernel = .ok (.ok (p, unused), kernel'))
include hcreate

theorem create_fields : p.state = .yielded ∧ (∀ entry ∈ p.grantPointers, entry = .unallocated) ∧
      ∀ task ∈ p.tasks.toList, ∃ q : ProcessStandard B, task = q.initTask := by
  unfold create createIn at hcreate
  simp only at hcreate
  split at hcreate
  · cases hcreate
  split at hcreate
  · cases hcreate
  split at hcreate
  · cases hcreate
  split at hcreate
  · cases hcreate
  split_ifs at hcreate
  · cases hcreate
  split at hcreate
  · cases hcreate
  cases hcreate
  refine ⟨rfl, fun entry hmem => List.eq_of_mem_replicate hmem, ?_⟩
  intro task hmem
  simp only [RingBuffer.toList_enqueue] at hmem
  split_ifs at hmem
  · simp only [layOut, RingBuffer.toList_new, List.nil_append, List.mem_singleton] at hmem
    exact ⟨_, hmem⟩
  · simp [layOut] at hmem

theorem calm_of_created {panics : Prop} (hpolicy : ∀ count, p.faultPolicy count = .panic → panics) :
    p.Calm platform panics := by
  obtain ⟨hstate, htable, htasks⟩ := create_fields hcreate
  have hrun : p.isRunning := by rw [isRunning, hstate]
  refine ⟨fun hstopped => ?_, fun hstopped => ?_, fun caller kind hmem => ?_,
    fun entry hmem => ?_, hpolicy⟩
  · exact absurd (hrun.symm.trans hstopped) (by decide)
  · exact absurd (hrun.symm.trans hstopped) (by decide)
  · obtain ⟨q, hq⟩ := htasks _ hmem
    cases hq
  · rw [htable entry hmem]
    exact ⟨0, rfl⟩

end

theorem KernelState.Booted.calm (h : s.Booted) {panics : Prop}
    (hpolicy : ∀ index p count, s.processes index = some p →
      p.faultPolicy count = .panic → panics) : s.All (Calm platform panics) := by
  intro index p hp
  obtain ⟨_, _, _, _, hcreate, -⟩ := h.created index p hp
  exact calm_of_created hcreate fun count => hpolicy index p count hp

theorem KernelState.Booted.calm_of_run (hboot : s.Booted) {events : List KernelEvent}
    {result : Unit} (hrun : runKernel platform events s = .ok (result, s')) :
    s'.All (Calm platform True) := by
  have hcalm : s.All (Calm platform True) := hboot.calm fun _ _ _ _ _ => trivial
  have hruns : Runs platform True True (runKernel platform events) s :=
    runKernel_runs hcalm (.inl trivial)
  exact ((Outcome.iff_of_ok hrun).mp hruns).calm hcalm

/-! ## The log of context switches -/

/-- Control was handed only to processes in the `Running` state. -/
def SwitchesSound (log : List LogEntry) : Prop :=
  ∀ index state, .switchedTo index state ∈ log → state = .running

theorem KernelStep.switchesSound (hstep : KernelStep platform rejects s s')
    (h : SwitchesSound s.log) : SwitchesSound s'.log := by
  have hother : ∀ entry : LogEntry, (∀ index state, entry ≠ .switchedTo index state) →
      SwitchesSound (entry :: s.log) := by
    intro entry hentry index state hmem
    rcases List.mem_cons.mp hmem with heq | hmem
    · exact absurd heq.symm (hentry index state)
    · exact h index state hmem
  cases hstep with
  | work _ _ | terminate _ _ | fault _ => exact h
  | restart _ _
  | exchange _ _ _
  | refuse _ _ _
  | reject _ _ _ _
  | handle _ _ _
  | functionCall _ _ => exact hother _ (by simp)
  | switchTo _ hstate =>
    intro index state hmem
    rcases List.mem_cons.mp hmem with heq | hmem
    · cases heq
      exact hstate
    · exact h index state hmem

theorem Reaches.switchesSound (hreaches : Reaches platform rejects s s')
    (h : SwitchesSound s.log) : SwitchesSound s'.log := by
  induction hreaches with
  | refl => exact h
  | tail _ hstep ih => exact hstep.switchesSound ih

/-- In every run from boot a process that is faulted or terminated has no tasks,
control is never handed to a process that is stopped, faulted or terminated, and
the run does not end in one of the panics of the scheduler. -/
theorem unrunnable_processes_not_executed (platform : Platform)
    {s : KernelState B} (hboot : s.Booted) (events : List KernelEvent) :
    match runKernel platform events s with
    | .error panic => panic = .processFault ∧ ∃ index p count, s.processes index = some p ∧
          p.faultPolicy count = .panic
    | .ok (_, s') =>
      (∀ index p, s'.processes index = some p → p.state = .faulted ∨ p.state = .terminated →
          p.tasks.toList = []) ∧
      ∀ index state, .switchedTo index state ∈ s'.log → state = .running := by
  have hcalm : s.All (Calm platform (∃ index p count,
      s.processes index = some p ∧ p.faultPolicy count = .panic)) :=
    hboot.calm fun index p count hp hpolicy => ⟨index, p, count, hp, hpolicy⟩
  have hruns : Runs platform True _ (runKernel platform events) s :=
    runKernel_runs hcalm (.inl trivial)
  unfold Runs Outcome at hruns
  cases hrun : runKernel platform events s with
  | error panic =>
    rw [hrun] at hruns
    exact hruns
  | ok result =>
    rw [hrun] at hruns
    refine ⟨fun index p hp hstate => ?_, ?_⟩
    · refine (hruns.calm hcalm index p hp).idle ?_
      rcases hstate with hstate | hstate
      all_goals rw [isRunning, hstate]
    · refine hruns.switchesSound ?_
      rw [hboot.log]
      simp [SwitchesSound]

/-! ## A concrete run -/

def smallPlatform : Platform where
  grants _ := { wordGrants 1 with upcalls := 2 }
  ipc := none

def smallDriver (processId : ProcessId) : DriverScript where
  allocateGrant := ([.enter 0 processId []], .ok ())
  command := ([], ⟨.success⟩)
  allowUserspaceReadable := ([], .ok)

def smallTurn (driver : Option DriverScript) : Turn where
  remainingUs := some 10000
  continueProcess := true
  stores _ := none
  faultHandled := false
  expired := true
  script := {
    filter := fun _ => .ok ()
    driver := driver
    stores := fun _ => none }

/-- A boundary whose processes return with the given reasons, one after the
other, and then run until they are interrupted. -/
def scriptedUkb (reasons : List ContextSwitchReason) : UserspaceKernelBoundary where
  StoredState := List ContextSwitchReason
  default := reasons
  initialProcessAppBrkSize := 32
  initializeProcess _ _ storedState := (.ok (), storedState)
  setSyscallReturnValue _ _ storedState _ := (.ok (), storedState)
  setProcessFunction _ _ storedState _ := (.ok (), storedState)
  switchToProcess _ _ storedState := ((storedState.headD .interrupted, none), storedState.tail)

def scriptedBoard (reasons : List ContextSwitchReason) : Board where
  chip := { smallBoard.chip with ukb := scriptedUkb reasons }
  grantCount := smallBoard.grantCount
  four_dvd_sizeOfTask := smallBoard.four_dvd_sizeOfTask
  four_dvd_sizeOfProcessStandard := smallBoard.four_dvd_sizeOfProcessStandard
  kernelObjects_fit := smallBoard.kernelObjects_fit

def logAfter (platform : Platform) (events : List KernelEvent)
    (s : KernelState B) : Option (List LogEntry) :=
  match runKernel platform events s with
  | .error _ => none
  | .ok (_, s') => some s'.log

def smallEvents : List KernelEvent :=
  [.doProcess 0 [smallTurn none, smallTurn none],
    .manage 0 (.terminate none), .doProcess 0 [smallTurn none]]

/-- The process is given control once, while it is running. -/
theorem unrunnable_processes_not_executed_small :
    ((logAfter smallPlatform smallEvents (bootState (smallArguments 1024) :
      KernelState smallBoard)).any fun log =>
        log.contains (.switchedTo 0 .running)) = true ∧
    ∀ log, logAfter smallPlatform smallEvents
        (bootState (smallArguments 1024) : KernelState smallBoard) = some log →
      ∀ index state, .switchedTo index state ∈ log → state = .running := by
  have hswitches : ∀ s : KernelState smallBoard, s.Booted → ∀ log,
      logAfter smallPlatform smallEvents s = some log →
      ∀ index state, .switchedTo index state ∈ log → state = .running := by
    intro s hboot log hlog
    have hsafe := unrunnable_processes_not_executed smallPlatform hboot smallEvents
    unfold logAfter at hlog
    split at hlog
    · cases hlog
    next hrun =>
    rw [hrun] at hsafe
    cases hlog
    exact hsafe.2
  exact ⟨by decide +kernel, hswitches _ (bootState_booted rfl)⟩

/-- Between the events of a run no grant is left entered, and a process that is not running
has none. -/
theorem grants_released (hboot : s.Booted) {events : List KernelEvent} {result : Unit}
    (hrun : runKernel platform events s = .ok (result, s')) {index : ℕ} {p : ProcessStandard B}
    (hp : s'.processes index = some p) : ∀ entry ∈ p.grantPointers, 2 ∣ entry.grantPtr.toNat ∧
      (p.isRunning = false → entry.grantPtr = 0) := by
  intro entry hentry
  have hcalm := hboot.calm_of_run hrun index p hp
  exact ⟨hcalm.even entry hentry, fun hstopped => hcalm.cleared hstopped entry hentry⟩

def processAfter (platform : Platform) (events : List KernelEvent) (index : ℕ)
    (s : KernelState B) : Option (ProcessStandard B) :=
  match runKernel platform events s with
  | .error _ => none
  | .ok (_, s') => s'.processes index

theorem exists_of_processAfter {events : List KernelEvent} {index : ℕ} {p : ProcessStandard B}
    (h : processAfter platform events index s = some p) :
    ∃ s', runKernel platform events s = .ok ((), s') ∧ s'.processes index = some p := by
  unfold processAfter at h
  split at h
  · cases h
  next s' hrun => exact ⟨s', hrun, h⟩

def enterEvents : List KernelEvent :=
  [.doProcess 0 [smallTurn none], .capsules [.enter 0 ⟨0, 0⟩ [.scheduleUpcall 0 1 2 3]]]

/-- The process has a grant once a capsule has entered it, and none when it has
been terminated. -/
theorem grants_released_small : ((processAfter smallPlatform enterEvents 0
      (bootState (smallArguments 1024) : KernelState smallBoard)).any fun p =>
        p.grantPointers.any fun entry => entry.grantPtr != 0) = true ∧
    ∃ (s' : KernelState smallBoard) (p : ProcessStandard smallBoard),
      runKernel smallPlatform (enterEvents ++ [.manage 0 (.terminate none)])
        (bootState (smallArguments 1024)) = .ok ((), s') ∧
      s'.processes 0 = some p ∧
      p.state = .terminated ∧
      ∀ entry ∈ p.grantPointers, entry.grantPtr = 0 := by
  have hreleased : ∀ s : KernelState smallBoard, s.Booted →
      ((processAfter smallPlatform (enterEvents ++ [.manage 0 (.terminate none)]) 0 s).any fun p =>
        p.state == .terminated) = true →
      ∃ s' p, runKernel smallPlatform (enterEvents ++ [.manage 0 (.terminate none)]) s =
          .ok ((), s') ∧
        s'.processes 0 = some p ∧ p.state = .terminated ∧
        ∀ entry ∈ p.grantPointers, entry.grantPtr = 0 := by
    intro s hboot hterminated
    cases hafter : processAfter smallPlatform
        (enterEvents ++ [.manage 0 (.terminate none)]) 0 s with
    | none =>
      rw [hafter] at hterminated
      cases hterminated
    | some p =>
      rw [hafter, Option.any_some, beq_iff_eq] at hterminated
      obtain ⟨s', hrun, hp⟩ := exists_of_processAfter hafter
      refine ⟨s', p, hrun, hp, hterminated, fun entry hentry => ?_⟩
      exact (grants_released hboot hrun hp entry hentry).2 (by rw [isRunning, hterminated])
  exact ⟨by decide +kernel, hreleased _ (bootState_booted rfl) (by decide +kernel)⟩

end TockKernel

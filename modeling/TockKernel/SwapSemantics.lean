import TockKernel.SavedValues

/-!
# Subscribe and allow exchange values

The values kept for a process are, in every state of every run, those that it
passed with its last successful calls since it was started. A successful call
returns the value before it; a call that fails hands its own arguments back,
unless it was the system call filter that rejected it.
-/

namespace TockKernel

open ProcessStandard KernelState List

variable {B : Board} {platform : Platform} {rejects panics : Prop}
  {contract : B.chip.mpu.Contract} {s s' : KernelState B}

/-- What a process passed with its last successful call for a key since it was
(re)started, read off the log; null if there was none. -/
def lastPassed (index : ℕ) : List LogEntry → SavedKey → Usize × Usize
  | [], _ => (0, 0)
  | .restarted other :: log, key =>
    if other = index then (0, 0) else lastPassed index log key
  | .handled other syscall rval :: log, key =>
    match syscall.exchange? with
    | some (key', new) =>
      if other = index ∧ rval.isSuccess = true ∧ key' = key then new
      else lastPassed index log key
    | none => lastPassed index log key
  | .functionCall _ _ :: log, key => lastPassed index log key
  | .switchedTo _ _ :: log, key => lastPassed index log key

section

variable {index other : ℕ} {syscall : Syscall} {rval : SyscallReturn}
  {log : List LogEntry} {key : SavedKey} {new : Usize × Usize}

theorem lastPassed_restarted (index : ℕ) (log : List LogEntry) :
    lastPassed index (.restarted index :: log) = fun _ => (0, 0) := by
  funext key
  rw [lastPassed, if_pos rfl]

theorem lastPassed_restarted_of_ne (hne : other ≠ index) :
    lastPassed index (.restarted other :: log) = lastPassed index log := by
  funext key
  rw [lastPassed, if_neg hne]

theorem lastPassed_success (hsyscall : syscall.exchange? = some (key, new))
    (hsuccess : rval.isSuccess) (key' : SavedKey) :
    lastPassed index (.handled index syscall rval :: log) key' =
      if key' = key then new else lastPassed index log key' := by
  rw [lastPassed, hsyscall]
  simp only [hsuccess, true_and]
  split_ifs with hkey hkey' hkey'
  · rfl
  · exact absurd hkey.symm hkey'
  · exact absurd hkey'.symm hkey
  · rfl

theorem lastPassed_handled_of_ne (hne : other ≠ index) :
    lastPassed index (.handled other syscall rval :: log) = lastPassed index log := by
  funext key
  rw [lastPassed]
  split
  · rw [if_neg fun hsame => hne hsame.1]
  · rfl

theorem lastPassed_failure (hfailed : rval.isSuccess = false) :
    lastPassed index (.handled other syscall rval :: log) = lastPassed index log := by
  funext key
  rw [lastPassed]
  split
  · rw [if_neg (by simp [hfailed])]
  · rfl

theorem lastPassed_other (hsyscall : syscall.exchange? = none) :
    lastPassed index (.handled other syscall rval :: log) = lastPassed index log := by
  funext key
  rw [lastPassed, hsyscall]

end

/-! ## The invariant -/

/-- The log of exchanges: each returned the value passed before, or its own
arguments, or was rejected by the filter. -/
def ReturnsSwapped (rejects : Prop) (log : List LogEntry) : Prop :=
  ∀ index syscall rval older key new, .handled index syscall rval :: older <:+ log →
    syscall.exchange? = some (key, new) → rval = key.kind.success (lastPassed index older key) ∨
      (∃ err, rval = key.kind.failure err new) ∨ ∃ err, rval = .failure err ∧ rejects

/-- The log of upcalls: each was called with the function and the data that
the process had passed last. -/
def CallsFresh (log : List LogEntry) : Prop :=
  ∀ index call older, .functionCall index call :: older <:+ log →
    TaskFresh (lastPassed index older) (.functionCall call)

/-- What is saved for the processes is what they passed last, and so is what
their queued upcalls will be called with. -/
structure SavedInvariant (platform : Platform) (rejects : Prop) (s : KernelState B) : Prop where
  grants : s.All (GrantsSound platform)
  passed : ∀ index p, s.processes index = some p → p.isRunning = true →
    p.saved = lastPassed index s.log
  fresh : s.All fun p => ∀ task ∈ p.tasks.toList, TaskFresh p.saved task
  returns : ReturnsSwapped rejects s.log
  calls : CallsFresh s.log

variable {log : List LogEntry}

theorem ReturnsSwapped.cons {entry : LogEntry} (h : ReturnsSwapped rejects log)
    (hentry : ∀ index syscall rval key new, entry = .handled index syscall rval
      → syscall.exchange? = some (key, new) → rval = key.kind.success
      (lastPassed index log key) ∨ (∃ err, rval = key.kind.failure err new) ∨ ∃
      err, rval = .failure err ∧ rejects) : ReturnsSwapped rejects (entry :: log) := by
  intro index syscall rval older key new hsuffix hsyscall
  rcases suffix_cons_iff.mp hsuffix with heq | hsuffix
  · obtain ⟨rfl, rfl⟩ := cons.inj heq
    exact hentry index syscall rval key new rfl hsyscall
  · exact h index syscall rval older key new hsuffix hsyscall

theorem CallsFresh.cons {entry : LogEntry} (h : CallsFresh log)
    (hentry : ∀ index call, entry = .functionCall index call →
      TaskFresh (lastPassed index log) (.functionCall call)) : CallsFresh (entry :: log) := by
  intro index call older hsuffix
  rcases suffix_cons_iff.mp hsuffix with heq | hsuffix
  · obtain ⟨rfl, rfl⟩ := cons.inj heq
    exact hentry index call rfl
  · exact h index call older hsuffix

namespace SavedInvariant

variable {index : ℕ} {p p' : ProcessStandard B}

theorem setProcess (h : SavedInvariant platform rejects s) (hgrants : p'.GrantsSound platform)
    (hpassed : p'.isRunning → p'.saved = lastPassed index s.log)
    (hfresh : ∀ task ∈ p'.tasks.toList, TaskFresh p'.saved task) :
    SavedInvariant platform rejects (s.setProcess index p') where
  grants := h.grants.setProcess hgrants
  fresh := h.fresh.setProcess hfresh
  returns := h.returns
  calls := h.calls
  passed other q hq hrun := by
    by_cases hsame : other = index
    · subst hsame
      cases processes_setProcess.symm.trans hq
      exact hpassed hrun
    · rw [processes_setProcess_of_ne hsame] at hq
      exact h.passed other q hq hrun

theorem record (h : SavedInvariant platform rejects s) {entry : LogEntry}
    (hlast : ∀ index, lastPassed index (entry :: s.log) = lastPassed index s.log)
    (hreturns : ReturnsSwapped rejects (entry :: s.log)) (hcalls : CallsFresh (entry :: s.log)) :
    SavedInvariant platform rejects (s.record entry) where
  grants := h.grants
  fresh := h.fresh
  returns := hreturns
  calls := hcalls
  passed index q hq hrun := (h.passed index q hq hrun).trans (hlast index).symm

end SavedInvariant

/-! ## Steps -/

section

variable {p p' : ProcessStandard B}

section

variable (hcleared : ∀ entry ∈ p.grantPointers, entry.grantPtr = 0)
include hcleared

theorem not_hasGrant_of_cleared {entry : GrantPointerEntry} : ¬ p.HasGrant i entry := by
  rintro ⟨hentry, hptr⟩
  exact hptr (hcleared entry (mem_of_getElem? hentry))

theorem grantsSound_of_cleared : p.GrantsSound platform where
  driver hgrant := absurd hgrant (not_hasGrant_of_cleared hcleared)
  aboveBreak hgrant := absurd hgrant (not_hasGrant_of_cleared hcleared)
  fits hgrant := absurd hgrant (not_hasGrant_of_cleared hcleared)
  counters hgrant := absurd hgrant (not_hasGrant_of_cleared hcleared)
  apart hgrant := absurd hgrant (not_hasGrant_of_cleared hcleared)
  unique hgrant := absurd hgrant (not_hasGrant_of_cleared hcleared)

theorem saved_of_cleared (hlen : p.grantPointers.length ≤ 2 ^ 32) : p.saved = fun _ => (0, 0) :=
  funext fun _ => saved_of_no_grant hlen fun _ _ hgrant =>
    absurd hgrant (not_hasGrant_of_cleared hcleared)

end

theorem taskFresh_initTask (saved : SavedKey → Usize × Usize)
    (q : ProcessStandard B) : TaskFresh saved q.initTask := by
  intro call id htask hsource
  cases htask
  cases hsource

theorem clearPending_fresh {key : SavedKey} {saved : SavedKey → Usize × Usize} {new : Usize × Usize}
    (hsaved : ∀ key', p'.saved key' = if key' = key then new else saved key')
    (hfresh : ∀ task ∈ p'.tasks.toList, TaskFresh saved task) :
    ∀ task ∈ (key.clearPending p').tasks.toList, TaskFresh (key.clearPending p').saved task := by
  have hother : ∀ task ∈ p'.tasks.toList,
      (∀ call id, task = .functionCall call → call.source = .driver id →
        (⟨.upcall, id.driverNum, id.subscribeNum⟩ : SavedKey) ≠ key) → TaskFresh p'.saved task := by
    intro task hmem hne call id htask hsource
    rw [hsaved, if_neg (hne call id htask hsource)]
    exact hfresh task hmem call id htask hsource
  unfold SavedKey.clearPending
  split
  · next hkind =>
      intro task hmem
      simp only [removePendingUpcalls, RingBuffer.toList_retain, mem_filter] at hmem
      refine hother task hmem.1 ?_
      rintro call id rfl hsource rfl
      simp [hsource] at hmem
  all_goals
    next hkind =>
      refine fun task hmem => hother task hmem ?_
      rintro call id - - rfl
      cases hkind

theorem clearPending_saved (key : SavedKey) (p : ProcessStandard B) :
    (key.clearPending p).saved = p.saved := by
  unfold SavedKey.clearPending
  split <;> rfl

theorem clearPending_grantsSound (h : p.GrantsSound platform)
    (key : SavedKey) : (key.clearPending p).GrantsSound platform := by
  unfold SavedKey.clearPending
  split
  · exact ⟨h.driver, h.aboveBreak, h.fits, h.counters, h.apart, h.unique⟩
  · exact h
  · exact h

end

theorem swapSaved_running {kind : SavedKind} {driverNum num : Usize} {new old : Usize × Usize}
    {p p' : ProcessStandard B} (hswap : p.swapSaved kind driverNum num new = (.ok old, p')) :
    p.isRunning := by
  rcases p.swapSaved_cases kind driverNum num new with
    ⟨_, herror⟩ | ⟨_, _, _, hrun, -⟩
  · rw [herror] at hswap
    cases hswap
  · exact hrun

namespace SavedInvariant

variable {index : ℕ} {p p' : ProcessStandard B}

section

variable (h : SavedInvariant platform rejects s)
include h

theorem work {drops : Prop} (hlayout : s.All (LayoutInvariant contract))
    (hp : s.processes index = some p) (hwork : ProcessWork platform drops p p') :
    SavedInvariant platform rejects (s.setProcess index p') := by
  obtain ⟨hgrants, hsaved, hqueued⟩ := (h.grants index p hp).work (hlayout index p hp) hwork
  refine h.setProcess hgrants (fun hrun => ?_) (fun task hmem => ?_)
  · rw [hsaved]
    exact h.passed index p hp (hwork.isRunning.symm.trans hrun)
  · rw [hsaved]
    exact (hqueued task hmem).elim (h.fresh index p hp task) id

theorem stopped (hstopped : p'.isRunning = false) (htasks : p'.tasks.toList = [])
    (hcleared : ∀ entry ∈ p'.grantPointers, entry.grantPtr = 0) :
    SavedInvariant platform rejects (s.setProcess index p') := by
  refine h.setProcess (grantsSound_of_cleared hcleared) (fun hrun => ?_) (fun task hmem => ?_)
  · exact absurd (hrun.symm.trans hstopped) (by decide)
  · rw [htasks] at hmem
    cases hmem

section

variable (hcalm : s.All (Calm platform panics))
include hcalm

theorem terminate (hp : s.processes index = some p) (completionCode : Option (BitVec 32)) :
    SavedInvariant platform rejects (s.setProcess index (p.terminate completionCode)) := by
  have hcalm' := (hcalm index p hp).terminate completionCode
  have hstopped := p.terminate_isRunning completionCode
  exact h.stopped hstopped (hcalm'.idle hstopped) (hcalm'.cleared hstopped)

theorem fault (hp : s.processes index = some p) : SavedInvariant platform rejects
      (s.setProcess index { p.terminate none with state := .faulted }) := by
  have hcalm' := (hcalm index p hp).terminate none
  have hstopped := p.terminate_isRunning none
  exact h.stopped rfl (hcalm'.idle hstopped) (hcalm'.cleared hstopped)

theorem restart (hlayout : s.All (LayoutInvariant contract))
    (hp : s.processes index = some p) (hstopped : p.isRunning = false) :
    SavedInvariant platform rejects (KernelState.record
      { s.setProcess index (p.resetToYielded s.kernel).1 with
        kernel := (p.resetToYielded s.kernel).2 } (.restarted index)) := by
  have hcleared := (hcalm index p hp).cleared hstopped
  have hempty := (hcalm index p hp).idle hstopped
  obtain ⟨htable, -, htasks⟩ := p.resetToYielded_outcome hstopped s.kernel
  rw [← htable] at hcleared
  have hlen : (p.resetToYielded s.kernel).1.grantPointers.length ≤ 2 ^ 32 := by
    rw [htable]
    exact (hlayout index p hp).grantPointers_length_le
  have hsaved := saved_of_cleared hcleared hlen
  refine ⟨h.grants.setProcess (grantsSound_of_cleared hcleared), ?_,
    h.fresh.setProcess ?_, h.returns.cons ?_, h.calls.cons ?_⟩
  · intro other q hq hrun
    by_cases hsame : other = index
    · subst hsame
      cases KernelState.processes_setProcess.symm.trans hq
      exact hsaved.trans (lastPassed_restarted other s.log).symm
    · have hq' := (KernelState.processes_setProcess_of_ne hsame).symm.trans hq
      exact (h.passed other q hq' hrun).trans (lastPassed_restarted_of_ne (Ne.symm hsame)).symm
  · intro task hmem
    rw [hempty] at htasks
    rcases htasks with ⟨-, htasks⟩ | ⟨-, q, htasks | htasks⟩
    · rw [htasks, hempty] at hmem
      cases hmem
    · rw [htasks] at hmem
      cases hmem
    rw [htasks, nil_append, mem_singleton] at hmem
    rw [hmem]
    exact taskFresh_initTask _ q
  · rintro index syscall rval key new ⟨⟩
  · rintro index call ⟨⟩

end

theorem exchange (hlayout : s.All (LayoutInvariant contract))
    {syscall : Syscall} {key : SavedKey} {new old : Usize × Usize} (hp : s.processes index = some p)
    (hsyscall : syscall.exchange? = some (key, new))
    (hswap : p.swapSaved key.kind key.driverNum key.num new = (.ok old, p')) :
    SavedInvariant platform rejects ((s.setProcess index (key.clearPending p')).record
        (.handled index syscall (key.kind.success old))) := by
  obtain ⟨hgrants, hold, hsaved, htasks⟩ := (h.grants index p hp).swapSaved
    (hlayout index p hp).grantPointers_length_le hswap
  have hrun := swapSaved_running hswap
  have hpassed := h.passed index p hp hrun
  refine ⟨h.grants.setProcess (clearPending_grantsSound hgrants key), ?_,
    h.fresh.setProcess (clearPending_fresh hsaved ?_), h.returns.cons ?_, h.calls.cons ?_⟩
  · intro other q hq hrunning'
    by_cases hsame : other = index
    · subst hsame
      cases processes_setProcess.symm.trans hq
      rw [clearPending_saved]
      funext key'
      rw [hsaved, hpassed]
      exact (lastPassed_success hsyscall (key.kind.isSuccess_success old) key').symm
    · have hq' := (processes_setProcess_of_ne hsame).symm.trans hq
      exact (h.passed other q hq' hrunning').trans (lastPassed_handled_of_ne (Ne.symm hsame)).symm
  · rw [htasks]
    exact h.fresh index p hp
  · rintro index' syscall' rval key' new' ⟨⟩ hsyscall'
    cases hsyscall.symm.trans hsyscall'
    rw [hold, hpassed]
    exact .inl rfl
  · rintro index call ⟨⟩

theorem handled {syscall : Syscall} {rval : SyscallReturn} (index : ℕ)
    (hlast : syscall.exchange? = none ∨ rval.isSuccess = false)
    (hreturned : ∀ key new, syscall.exchange? = some (key, new) →
      (∃ err, rval = key.kind.failure err new) ∨ ∃ err, rval = .failure err ∧ rejects) :
    SavedInvariant platform rejects (s.record (.handled index syscall rval)) := by
  refine h.record (fun other => ?_) (h.returns.cons ?_) (h.calls.cons ?_)
  · rcases hlast with hsyscall | hfailed
    · exact lastPassed_other hsyscall
    · exact lastPassed_failure hfailed
  · rintro index' syscall' rval' key' new' ⟨⟩ hsyscall'
    exact .inr (hreturned key' new' hsyscall')
  · rintro index call ⟨⟩

theorem functionCall (hcalm : s.All (Calm platform panics))
    (hlayout : s.All (LayoutInvariant contract)) {call : FunctionCall}
    (hp : s.processes index = some p) (hhead : p.tasks.toList.head? = some (.functionCall call)) :
    SavedInvariant platform rejects ((s.setProcess index p.dequeueTask.2).record
        (.functionCall index call)) := by
  have hmem : .functionCall call ∈ p.tasks.toList := mem_of_head? hhead
  have hrun : p.isRunning := by
    by_contra hstopped
    rw [(hcalm index p hp).idle (by simpa using hstopped)] at hmem
    cases hmem
  have hwork : ProcessWork platform True p p.dequeueTask.2 := dequeueTask_work p
  refine (h.work hlayout hp hwork).record (fun other => rfl) (h.returns.cons ?_) (h.calls.cons ?_)
  · rintro index syscall rval key new ⟨⟩
  · rintro index' call' ⟨⟩
    rw [← h.passed index p hp hrun]
    exact h.fresh index p hp _ hmem

end

end SavedInvariant

theorem KernelStep.savedInvariant (hstep : KernelStep platform rejects s s')
    (hcalm : s.All (Calm platform panics)) (hlayout : s.All (LayoutInvariant contract))
    (h : SavedInvariant platform rejects s) : SavedInvariant platform rejects s' := by
  cases hstep with
  | work hp hwork => exact h.work hlayout hp hwork
  | terminate hp completionCode => exact h.terminate hcalm hp completionCode
  | fault hp => exact h.fault hcalm hp
  | restart hp hstopped => exact h.restart hcalm hlayout hp hstopped
  | exchange hp hsyscall hswap => exact h.exchange hlayout hp hsyscall hswap
  | refuse index err hsyscall =>
    refine h.handled index (.inr (SavedKind.isSuccess_failure _ _ _)) ?_
    intro key new hsyscall'
    cases hsyscall.symm.trans hsyscall'
    exact .inl ⟨err, rfl⟩
  | reject index syscall err hrejects =>
    exact h.handled index (.inr rfl) fun _ _ _ =>
      .inr ⟨err, rfl, hrejects⟩
  | handle index rval hsyscall =>
    refine h.handled index (.inl hsyscall) fun key new hsyscall' => ?_
    cases hsyscall.symm.trans hsyscall'
  | functionCall hp hhead => exact h.functionCall hcalm hlayout hp hhead
  | switchTo _ _ =>
    refine h.record (fun index => rfl) (h.returns.cons ?_) (h.calls.cons ?_)
    · rintro index syscall rval key new ⟨⟩
    · rintro index call ⟨⟩

theorem Reaches.savedInvariant (hreaches : Reaches platform rejects s s')
    (hcalm : s.All (Calm platform panics)) (hlayout : s.All (LayoutInvariant contract))
    (h : SavedInvariant platform rejects s) : s'.All (LayoutInvariant contract) ∧
      SavedInvariant platform rejects s' := by
  induction hreaches with
  | refl => exact ⟨hlayout, h⟩
  | tail hreaches hstep ih =>
    exact ⟨hstep.layout ih.1, hstep.savedInvariant (Reaches.calm hreaches hcalm) ih.1 ih.2⟩

theorem KernelState.Booted.savedInvariant (h : s.Booted)
    (contract : B.chip.mpu.Contract) : SavedInvariant platform rejects s := by
  have hcleared (index p) (hp : s.processes index = some p) :
      ∀ entry ∈ p.grantPointers, entry.grantPtr = 0 := by
    obtain ⟨_, _, _, _, hcreate, -⟩ := h.created index p hp
    intro entry hmem
    rw [(create_fields hcreate).2.1 entry hmem]
    rfl
  refine ⟨fun index p hp => grantsSound_of_cleared (hcleared index p hp), fun index p hp _ => ?_,
    fun index p hp => ?_, ?_, ?_⟩
  · rw [h.log]
    exact saved_of_cleared (hcleared index p hp)
      (h.layout contract index p hp).grantPointers_length_le
  · obtain ⟨_, _, _, _, hcreate, -⟩ := h.created index p hp
    intro task hmem
    obtain ⟨q, rfl⟩ := (create_fields hcreate).2.2 task hmem
    exact taskFresh_initTask _ q
  · intro index syscall rval older key new hsuffix
    rw [h.log] at hsuffix
    exact absurd (suffix_nil.mp hsuffix) (by simp)
  · intro index call older hsuffix
    rw [h.log] at hsuffix
    exact absurd (suffix_nil.mp hsuffix) (by simp)

/-- If the filter lets every exchange through, `rejects` can be chosen to be
false. -/
theorem runKernel_savedInvariant (contract : B.chip.mpu.Contract)
    (platform : Platform) {s s' : KernelState B} (hboot : s.Booted) {events : List KernelEvent}
    (hadmits : rejects ∨ ∀ event ∈ events, event.AdmitsExchanges)
    (hrun : runKernel platform events s = .ok ((), s')) : SavedInvariant platform rejects s' := by
  have hcalm : s.All (Calm platform True) := hboot.calm fun _ _ _ _ _ => trivial
  have hruns : Runs platform rejects True (runKernel platform events) s :=
    runKernel_runs hcalm hadmits
  have hreaches := (Outcome.iff_of_ok hrun).mp hruns
  exact (hreaches.savedInvariant hcalm (hboot.layout contract) (hboot.savedInvariant contract)).2

/-- In every run from boot in which the filter lets subscribe and allow calls
through, a successful call returns what was passed with the last one for the
same key since the process was started, and a call that fails returns its own
arguments. -/
theorem swap_semantics (contract : B.chip.mpu.Contract) (platform : Platform)
    {s s' : KernelState B} (hboot : s.Booted) {events : List KernelEvent}
    (hadmits : ∀ event ∈ events, event.AdmitsExchanges)
    (hrun : runKernel platform events s = .ok ((), s')) :
    (∀ index syscall rval older key new, .handled index syscall rval :: older <:+ s'.log →
      syscall.exchange? = some (key, new) → rval = key.kind.success (lastPassed index older key) ∨
        ∃ err, rval = key.kind.failure err new) ∧
    ∀ index p key, s'.processes index = some p → p.isRunning = true →
      p.saved key = lastPassed index s'.log key := by
  have hinv : SavedInvariant platform False s' :=
    runKernel_savedInvariant contract platform hboot (.inr hadmits) hrun
  constructor
  · intro index syscall rval older key new hsuffix hsyscall
    rcases hinv.returns index syscall rval older key new hsuffix hsyscall with
      hsuccess | hfailure | ⟨_, -, hrejects⟩
    · exact .inl hsuccess
    · exact .inr hfailure
    · exact hrejects.elim
  · intro index p key hp hrunning
    rw [hinv.passed index p hp hrunning]

/-! ## A concrete run -/

/-- A process that subscribes twice, and a third time to an upcall that the
driver does not have. -/
def subscribeThrice : List ContextSwitchReason :=
  [.syscallFired (.subscribe 1 0 0x10101 7), .syscallFired (.subscribe 1 0 0x10201 8),
    .syscallFired (.subscribe 1 2 0x10301 9)]

def subscribeEvents : List KernelEvent :=
  [.doProcess 0 (List.replicate 4 (smallTurn (some (smallDriver ⟨0, 0⟩))))]

theorem logAfter_eq_some {events : List KernelEvent}
    (hlog : logAfter platform events s = some log) :
    ∃ s', runKernel platform events s = .ok ((), s') ∧ s'.log = log := by
  unfold logAfter at hlog
  split at hlog
  · cases hlog
  · next s' hrun => exact ⟨s', hrun, Option.some.inj hlog⟩

/-- The log up to the first call, during which the driver allocates its
grant. -/
def firstSubscribe : List LogEntry :=
  [.switchedTo 0 .running, .handled 0 (.subscribe 1 0 0x10101 7) (.subscribeSuccess 0 0),
    .switchedTo 0 .running, .functionCall 0
      ⟨.kernel, 0x10040, 0x20000000, 0x6bc, 0x20000020, 0x10040⟩]

/-- The second call returns what the first one passed, the third one its own
arguments. -/
def subscribeLog : List LogEntry :=
  .handled 0 (.subscribe 1 2 0x10301 9) (.subscribeFailure .nosupport 0x10301 9) ::
  .switchedTo 0 .running ::
  .handled 0 (.subscribe 1 0 0x10201 8) (.subscribeSuccess 0x10101 7) ::
  firstSubscribe

theorem swap_semantics_small :
    logAfter smallPlatform subscribeEvents (bootState (smallArguments 1024) :
      KernelState (scriptedBoard subscribeThrice)) = some subscribeLog ∧
    (.subscribeSuccess 0x10101 7 : SyscallReturn) = SavedKind.upcall.success
      (lastPassed 0 firstSubscribe ⟨.upcall, 1, 0⟩) := by
  have hswaps : ∀ s : KernelState (scriptedBoard subscribeThrice), s.Booted →
      logAfter smallPlatform subscribeEvents s = some subscribeLog →
      (.subscribeSuccess 0x10101 7 : SyscallReturn) = SavedKind.upcall.success
        (lastPassed 0 firstSubscribe ⟨.upcall, 1, 0⟩) := by
    intro s hboot hlog
    obtain ⟨_, hrun, hlog⟩ := logAfter_eq_some hlog
    have hadmits : ∀ event ∈ subscribeEvents, event.AdmitsExchanges := by
      simp [subscribeEvents, KernelEvent.AdmitsExchanges, SyscallScript.AdmitsExchanges, smallTurn]
    have hreturned := (swap_semantics unalignedMpuContract smallPlatform hboot
      hadmits hrun).1 0 (.subscribe 1 0 0x10201 8) _ firstSubscribe _ _
      (by rw [hlog]; exact ⟨[_, _], rfl⟩) rfl
    rcases hreturned with hsuccess | ⟨_, hfailure⟩
    · exact hsuccess
    · cases hfailure
  have hlog : logAfter smallPlatform subscribeEvents (bootState (smallArguments 1024) :
        KernelState (scriptedBoard subscribeThrice)) = some subscribeLog := by
    decide +kernel
  exact ⟨hlog, hswaps _ (bootState_booted rfl) hlog⟩

def filteredTurn : Turn :=
  { smallTurn (some (smallDriver ⟨0, 0⟩)) with
    script := { filter := fun _ => .error .nodevice
                driver := some (smallDriver ⟨0, 0⟩)
                stores := fun _ => none } }

/-- A subscribe call that the filter rejects does not get its arguments
back. -/
theorem filtered_subscribe_loses_arguments : (bootState (smallArguments 1024) :
      KernelState (scriptedBoard subscribeThrice)).Booted ∧ (∃ older, (logAfter smallPlatform
        [.doProcess 0 [smallTurn none, filteredTurn]] (bootState (smallArguments 1024) :
          KernelState (scriptedBoard subscribeThrice)) =
      some (.handled 0 (.subscribe 1 0 0x10101 7) (.failure .nodevice) :: older))) ∧
    (Syscall.subscribe 1 0 0x10101 7).exchange? = some (⟨.upcall, 1, 0⟩, (7, 0x10101)) ∧
    (∀ old, (.failure .nodevice : SyscallReturn) ≠ SavedKind.upcall.success old) ∧
    ∀ err, (.failure .nodevice : SyscallReturn) ≠ SavedKind.upcall.failure err (7, 0x10101) := by
  refine ⟨bootState_booted rfl, ⟨firstSubscribe.drop 2, ?_⟩, rfl, fun _ => ?_, fun _ => ?_⟩
  · decide +kernel
  · simp [SavedKind.success]
  · simp [SavedKind.failure]

end TockKernel

import TockKernel.Loading.Loader

/-!
# The loader and the checker together

Loading is handed back and forth: a deferred call of the loader begins a check,
the answers of the policy lead the checker from footer to footer, and its report
sets the next deferred call. This module runs the two machines as one system
and shows that, as long as loading has not finished, one of them is due.
-/

namespace TockKernel.Loading

open Tbf SequentialProcessLoaderMachine

structure LoadingSystem (M X : Type) where
  loader : SequentialProcessLoaderMachine M X
  checker : ProcessCheckerMachine
  /-- How the policy deals with the binary that is being checked. -/
  policy : AppCredentialsPolicy
  /-- How often `start` was called; the kernel does not count. -/
  starts : ℕ

def Notification.isFinished : Notification → Bool
  | .processLoadingFinished => true
  | .processLoaded _ => false

def SequentialProcessLoaderMachine.finishedCount {M X : Type}
    (machine : SequentialProcessLoaderMachine M X) : ℕ :=
  machine.notifications.countP Notification.isFinished

namespace LoadingSystem

variable {M X : Type}

def reportDone (s : LoadingSystem M X) : LoadingSystem M X :=
  match s.checker.dones with
  | [] => s
  | (pb, result) :: _ =>
    { s with
      loader := s.loader.done pb result
      checker := { s.checker with dones := [] } }

/-- The deferred call. When it comes to a binary the checker begins a check of
it, and may have a result at once; when it comes to the end, the client may call
`start`. -/
def handleDeferredCall (create : Creator M X) (policy : AppCredentialsPolicy)
    (restarts : Bool) (s : LoadingSystem M X) : LoadingSystem M X :=
  let loader := SequentialProcessLoaderMachine.handleDeferredCall create
    { s.loader with deferredCall := false, restarts }
  let calls := bif restarts then loader.finishedCount - s.loader.finishedCount else 0
  match loader.checking with
  | none => { s with loader, starts := s.starts + calls }
  | some pb =>
    { s with
      loader := { loader with checking := none }
      checker := .check policy pb
      policy := policy }.reportDone

def policyAnswers (s : LoadingSystem M X) : LoadingSystem M X :=
  { s with checker := s.checker.answered s.policy }.reportDone

def start (s : LoadingSystem M X) : LoadingSystem M X :=
  { s with loader := s.loader.start, starts := s.starts + 1 }

/-- The policy may deal with each binary in its own way, and loading may be
started again once it has finished; `restarts` says whether that may happen from
inside `process_loading_finished`. -/
inductive Step (create : Creator M X) (restarts : Bool) :
    LoadingSystem M X → LoadingSystem M X → Prop
  | start (s : LoadingSystem M X) :
      s.loader.finishedCount = s.starts → Step create restarts s s.start
  | deferredCall (s : LoadingSystem M X) (policy : AppCredentialsPolicy) (calls : Bool) :
      s.loader.deferredCall = true → (calls = true → restarts = true) →
      Step create restarts s (s.handleDeferredCall create policy calls)
  | policyAnswers (s : LoadingSystem M X) :
      s.checker.outstanding ≠ none → Step create restarts s s.policyAnswers

/-- A loader before the first start, with any flash, memory and arrays. -/
structure Initial (s : LoadingSystem M X) : Prop where
  state : s.loader.state = none
  deferredCall : s.loader.deferredCall = false
  checking : s.loader.checking = none
  notifications : s.loader.notifications = []
  starts : s.starts = 0
  outstanding : s.checker.outstanding = none

end LoadingSystem

namespace ProcessCheckerMachine

/-- Each further answer of the policy leads to another check, and the last one
to a report. -/
inductive WillCallDone (policy : AppCredentialsPolicy) : ProcessCheckerMachine → Prop
  | now {machine : ProcessCheckerMachine} : machine.outstanding ≠ none →
      (machine.answered policy).dones ≠ [] → WillCallDone policy machine
  | later {machine : ProcessCheckerMachine} : machine.outstanding ≠ none →
      WillCallDone policy (machine.answered policy) → WillCallDone policy machine

variable {policy : AppCredentialsPolicy} {pb : ProcessBinary}
  {machine : ProcessCheckerMachine} {earlier : List Offer}
  {footer : TbfFooterV2Credentials} {result : Except ErrorCode CheckResult}

theorem Waiting.willCallDone (h : Waiting pb machine earlier footer result) :
    WillCallDone policy machine := by
  -- Every answer uses up a footer, so the number of those left goes down.
  induction hleft : pb.understood.length - machine.offers.length
    using Nat.strong_induction_on generalizing machine earlier footer result with
  | _ left ih =>
    have houtstanding : machine.outstanding ≠ none := by
      rw [h.outstanding]
      simp
    obtain ⟨_, _, _, hwaiting, hmore⟩ | hfinished := h.answered policy
    · have hafter := hwaiting.length_le
      exact .later houtstanding (ih _ (by omega) hwaiting rfl)
    obtain ⟨answer, hdones, -⟩ := hfinished.dones
    refine .now houtstanding ?_
    rw [hdones]
    simp

end ProcessCheckerMachine

/-! ## The loader -/

namespace SequentialProcessLoaderMachine

variable {M X : Type} {machine machine' : SequentialProcessLoaderMachine M X}

structure SameProgress (machine machine' : SequentialProcessLoaderMachine M X) : Prop where
  deferredCall : machine'.deferredCall = machine.deferredCall
  checking : machine'.checking = machine.checking
  finishedCount : machine'.finishedCount = machine.finishedCount
  restarts : machine'.restarts = machine.restarts

theorem SameProgress.refl (machine : SequentialProcessLoaderMachine M X) :
    SameProgress machine machine :=
  ⟨rfl, rfl, rfl, rfl⟩

theorem SameProgress.trans {machine'' : SequentialProcessLoaderMachine M X}
    (h : SameProgress machine machine')
    (h' : SameProgress machine' machine'') : SameProgress machine machine'' :=
  ⟨h'.deferredCall.trans h.deferredCall, h'.checking.trans h.checking,
    h'.finishedCount.trans h.finishedCount, h'.restarts.trans h.restarts⟩

theorem finishedCount_processLoaded (result : Except ProcessLoadError Unit) :
    (machine.notify (.processLoaded result)).finishedCount = machine.finishedCount :=
  List.countP_cons_of_neg (by simp [Notification.isFinished])

theorem finishedCount_processLoadingFinished :
    (machine.notify .processLoadingFinished).finishedCount = machine.finishedCount + 1 :=
  List.countP_cons_of_pos rfl

theorem processLoadingFinished_of_not_restarts (h : machine.restarts = false) :
    machine.processLoadingFinished = machine.notify .processLoadingFinished :=
  if_neg (h ▸ Bool.false_ne_true)

theorem loadProcessObject_sameProgress (create : Creator M X)
    (machine : SequentialProcessLoaderMachine M X) (pb : ProcessBinary) :
    SameProgress machine (machine.loadProcessObject create pb) := by
  unfold loadProcessObject
  split
  · exact ⟨rfl, rfl, finishedCount_processLoaded _, rfl⟩
  dsimp only
  split
  · exact ⟨rfl, rfl, finishedCount_processLoaded _, rfl⟩
  · exact ⟨rfl, rfl, rfl, rfl⟩
  · exact ⟨rfl, rfl, finishedCount_processLoaded _, rfl⟩

theorem loadUnlessBlocked_sameProgress (create : Creator M X)
    (machine : SequentialProcessLoaderMachine M X) (pb : ProcessBinary)
    (others : List (Option ProcessBinary)) :
    SameProgress machine (machine.loadUnlessBlocked create pb others) := by
  unfold loadUnlessBlocked
  split
  · exact .refl machine
  split
  · exact .refl machine
  · exact loadProcessObject_sameProgress create machine pb

theorem loadBinaries_sameProgress (create : Creator M X) (binaries : List (Option ProcessBinary))
    (machine : SequentialProcessLoaderMachine M X) :
    SameProgress machine (loadBinaries create binaries machine) := by
  induction binaries generalizing machine with
  | nil => exact .refl machine
  | cons binary others ih =>
    cases binary with
    | none => exact ih machine
    | some pb =>
      exact (loadUnlessBlocked_sameProgress create machine pb others).trans (ih _)

theorem done_checking (pb : ProcessBinary) (result : CheckAnswer) :
    (machine.done pb result).checking = machine.checking := by
  unfold done
  split
  · split <;> rfl
  · rfl

theorem done_finishedCount (pb : ProcessBinary) (result : CheckAnswer) :
    (machine.done pb result).finishedCount = machine.finishedCount := by
  unfold done
  split
  · split
    · rfl
    · exact finishedCount_processLoaded _
  · exact finishedCount_processLoaded _

end SequentialProcessLoaderMachine

/-! ## What is due -/

namespace LoadingSystem

variable {M X : Type} {s s' : LoadingSystem M X}

/-- Loading has not been started or has finished; a deferred call is due; or
the policy has to answer. -/
inductive Phase (s : LoadingSystem M X) : Prop
  | idle : s.loader.state = none → s.loader.deferredCall = false →
      s.loader.checking = none → s.checker.outstanding = none →
      s.loader.finishedCount = s.starts → Phase s
  | deferred : s.loader.state ≠ none → s.loader.deferredCall = true →
      s.loader.checking = none → s.checker.outstanding = none →
      s.loader.finishedCount + 1 = s.starts → Phase s
  | checking {pb : ProcessBinary} {earlier : List Offer} {footer : TbfFooterV2Credentials}
      {result : Except ErrorCode CheckResult} :
      s.loader.state ≠ none → s.loader.deferredCall = false →
      s.loader.checking = none →
      ProcessCheckerMachine.Waiting pb s.checker earlier footer result →
      s.loader.finishedCount + 1 = s.starts → Phase s

theorem phase_reportDone {policy : AppCredentialsPolicy} {pb : ProcessBinary} {offered : ℕ}
    (hprogress : ProcessCheckerMachine.Progress policy pb offered s.checker)
    (hstate : s.loader.state ≠ none) (hdeferred : s.loader.deferredCall = false)
    (hchecking : s.loader.checking = none) (hcount : s.loader.finishedCount + 1 = s.starts) :
    Phase s.reportDone := by
  obtain ⟨_, _, result, hwaiting, -⟩ | hfinished := hprogress
  · have hsame : s.reportDone = s := by
      simp [reportDone, hwaiting.dones]
    rw [hsame]
    exact .checking hstate hdeferred hchecking hwaiting hcount
  obtain ⟨result, hdones, -⟩ := hfinished.dones
  simp only [reportDone, hdones]
  refine .deferred ?_ rfl ?_ hfinished.outstanding ?_
  · rw [done_state]
    exact hstate
  · rw [done_checking]
    exact hchecking
  · rw [done_finishedCount]
    exact hcount

theorem phase_start (h : Phase s) (hcount : s.loader.finishedCount = s.starts) : Phase s.start := by
  cases h with
  | idle _ _ hchecking houtstanding _ =>
    exact .deferred (by simp [start, SequentialProcessLoaderMachine.start])
      rfl hchecking houtstanding (congrArg (· + 1) hcount)
  | deferred _ _ _ _ hsucc => omega
  | checking _ _ _ _ hsucc => omega

theorem phase_loadAndCheck (create : Creator M X) (policy : AppCredentialsPolicy)
    (hstate : s.loader.state = some .discoverProcessBinaries) (hchecking : s.loader.checking = none)
    (houtstanding : s.checker.outstanding = none) (hcount : s.loader.finishedCount + 1 = s.starts) :
    Phase (s.handleDeferredCall create policy false) := by
  simp only [handleDeferredCall, SequentialProcessLoaderMachine.handleDeferredCall, hstate,
    SequentialProcessLoaderMachine.loadAndCheck]
  cases hdiscover : discoverProcessBinary s.loader.flash with
  | ok found =>
    exact phase_reportDone (ProcessCheckerMachine.check_progress policy found.2)
      (by simp) rfl rfl hcount
  | error failure =>
    simp only
    split_ifs
    · simp only [hchecking]
      exact .deferred (by simp) rfl rfl houtstanding hcount
    simp only [SequentialProcessLoaderMachine.notify, hchecking]
    refine .deferred (by simp) rfl rfl houtstanding ?_
    refine Eq.trans ?_ hcount
    exact congrArg (· + 1) (SequentialProcessLoaderMachine.finishedCount_processLoaded _)

theorem phase_loadProcessObjects (create : Creator M X) (policy : AppCredentialsPolicy)
    (hstate : s.loader.state = some .loadProcesses) (hchecking : s.loader.checking = none)
    (houtstanding : s.checker.outstanding = none) (hcount : s.loader.finishedCount + 1 = s.starts) :
    Phase (s.handleDeferredCall create policy false) := by
  let before := { s.loader with deferredCall := false, restarts := false }
  have hsame := SequentialProcessLoaderMachine.loadBinaries_sameProgress create
    before.procBinaries before
  let loaded := { loadBinaries create before.procBinaries before with
    procBinaries := before.procBinaries.map fun _ => none }
  have hcalm : loaded.processLoadingFinished = loaded.notify .processLoadingFinished :=
    processLoadingFinished_of_not_restarts hsame.restarts
  have hfinished : before.loadProcessObjects create =
      { loaded.notify .processLoadingFinished with state := none } := by
    rw [← hcalm]
    rfl
  have hhandled : SequentialProcessLoaderMachine.handleDeferredCall create before =
      before.loadProcessObjects create := by
    simp [SequentialProcessLoaderMachine.handleDeferredCall, before, hstate]
  have hnone : (before.loadProcessObjects create).checking = none := by
    rw [hfinished]
    exact hsame.checking.trans hchecking
  have hstep : s.handleDeferredCall create policy false =
      { s with loader := before.loadProcessObjects create } := by
    simp only [handleDeferredCall]
    rw [hhandled, hnone]
    rfl
  rw [hstep, hfinished]
  refine .idle rfl hsame.deferredCall (hsame.checking.trans hchecking) houtstanding ?_
  refine Eq.trans ?_ hcount
  exact SequentialProcessLoaderMachine.finishedCount_processLoadingFinished.trans
    (congrArg (· + 1) hsame.finishedCount)

theorem Step.phase {create : Creator M X} (h : Phase s) (hstep : Step create false s s') :
    Phase s' := by
  cases hstep with
  | start hcount => exact phase_start h hcount
  | deferredCall policy calls hpending hcalls =>
    obtain rfl : calls = false := by simpa using hcalls
    cases h with
    | idle _ hdeferred | checking _ hdeferred => rw [hdeferred] at hpending; cases hpending
    | deferred hstate _ hchecking houtstanding hcount =>
      cases hcase : s.loader.state with
      | none => exact absurd hcase hstate
      | some phase =>
        cases phase with
        | discoverProcessBinaries =>
          exact phase_loadAndCheck create policy hcase hchecking houtstanding hcount
        | loadProcesses =>
          exact phase_loadProcessObjects create policy hcase hchecking houtstanding hcount
  | policyAnswers hasked =>
    cases h with
    | idle _ _ _ houtstanding | deferred _ _ _ houtstanding => exact absurd houtstanding hasked
    | checking hstate hdeferred hchecking hwaiting hcount =>
      exact phase_reportDone (hwaiting.answered s.policy) hstate hdeferred hchecking hcount

theorem Initial.phase (h : s.Initial) : Phase s := by
  refine .idle h.state h.deferredCall h.checking h.outstanding ?_
  rw [h.starts, finishedCount, h.notifications]
  rfl

theorem phase_of_reaches {create : Creator M X} (h : s.Initial)
    (hreach : Relation.ReflTransGen (Step create false) s s') : Phase s' := by
  induction hreach with
  | refl => exact h.phase
  | tail _ hstep ih => exact hstep.phase ih

end LoadingSystem

/-- Until loading has finished a deferred call is pending or a check is
outstanding that will lead to a report, and the client is told once for each
start, as long as it does not call `start` while it is told. -/
theorem loader_never_stalls {M X : Type} (create : Creator M X)
    {s0 s : LoadingSystem M X} (hinitial : s0.Initial)
    (hreach : Relation.ReflTransGen (LoadingSystem.Step create false) s0 s) :
    (s.loader.finishedCount < s.starts → s.loader.deferredCall = true ∨
        s.checker.outstanding ≠ none ∧ ProcessCheckerMachine.WillCallDone s.policy s.checker) ∧
      s.loader.finishedCount ≤ s.starts ∧ s.starts ≤ s.loader.finishedCount + 1 := by
  cases LoadingSystem.phase_of_reaches hinitial hreach with
  | idle _ _ _ _ hcount =>
    exact ⟨fun hlt => absurd hcount hlt.ne, hcount.le, by omega⟩
  | deferred _ hdeferred _ _ hcount =>
    exact ⟨fun _ => .inl hdeferred, by omega, by omega⟩
  | checking _ _ _ hwaiting hcount =>
    refine ⟨fun _ => .inr ⟨?_, hwaiting.willCallDone⟩, by omega, by omega⟩
    rw [hwaiting.outstanding]
    simp

open SequentialProcessLoaderMachine in
def sampleSystem : LoadingSystem Unit Unit where
  loader := { sampleMachine [none] [none] with state := none }
  checker := ⟨none, 0, [], none, []⟩
  policy := ⟨true, fun _ => .refused .nosupport⟩
  starts := 0

/-- Discovery, and then loading, at the end of which the client may call `start`. -/
def sampleRun (restarts : Bool) : LoadingSystem Unit Unit :=
  (sampleSystem.start.handleDeferredCall sampleCreate sampleSystem.policy restarts)
    |>.handleDeferredCall sampleCreate sampleSystem.policy restarts

theorem sampleRun_reaches (restarts : Bool) : Relation.ReflTransGen
    (LoadingSystem.Step sampleCreate restarts) sampleSystem (sampleRun restarts) :=
  .tail (.tail (.single (.start _ rfl)) (.deferredCall _ _ restarts rfl fun h => h))
    (.deferredCall _ _ restarts (by cases restarts <;> rfl) fun h => h)

theorem loader_never_stalls_sampleSystem : sampleSystem.Initial ∧
    (sampleRun false).start.loader.finishedCount < (sampleRun false).start.starts ∧
    ((sampleRun false).start.loader.deferredCall = true ∨
      (sampleRun false).start.checker.outstanding ≠ none ∧
        ProcessCheckerMachine.WillCallDone (sampleRun false).start.policy
          (sampleRun false).start.checker) := by
  have hinitial : sampleSystem.Initial := ⟨rfl, rfl, rfl, rfl, rfl, rfl⟩
  refine ⟨hinitial, by decide, ?_⟩
  exact (loader_never_stalls sampleCreate hinitial
    ((sampleRun_reaches false).tail (.start _ rfl))).1 (by decide)

/-- The state of the second start is cleared, and its deferred call does nothing. -/
theorem restart_in_callback_stalls : sampleSystem.Initial ∧
    ∃ s, Relation.ReflTransGen (LoadingSystem.Step sampleCreate true) sampleSystem s ∧
      s.loader.finishedCount < s.starts ∧ s.loader.deferredCall = false ∧
        s.checker.outstanding = none := by
  refine ⟨⟨rfl, rfl, rfl, rfl, rfl, rfl⟩, _, (sampleRun_reaches true).tail
    (.deferredCall _ sampleSystem.policy true rfl fun h => h), ?_, rfl, rfl⟩
  decide

end TockKernel.Loading

import TockKernel.NonvolatileStorage.Isolation

/-!
# Runs of the nonvolatile storage driver

As long as no write is made while the kernel's call is in progress and the
kernel makes no request from inside its callback while a process waits, every
userspace request that is accepted is carried out as it was made.
-/

namespace TockKernel.NonvolatileStorage

open Capsule

variable {ι : Type*}

/-! ## What only a completion changes -/

def Capsule.memory (s : Capsule ι) : (ℕ → Byte) × (ι → List Byte) :=
  (s.storage, s.readBuffer)

theorem callDriver_memory (accepts : DriverCall ι → Bool) (s : Capsule ι)
    (call : DriverCall ι) : (s.callDriver accepts call).2.memory = s.memory := by
  rcases callDriver_cases accepts s call with ⟨-, hres⟩ | hres <;>
    rw [hres] <;> rfl

section

variable (layout : Layout) (accepts : DriverCall ι → Bool) (s : Capsule ι)
include layout accepts s

theorem userspaceCallDriver_memory (command : NonvolatileCommand)
    (offset length : ℕ) (origin : Origin ι) :
    (s.userspaceCallDriver layout accepts command offset length origin).2.memory = s.memory := by
  unfold userspaceCallDriver
  cases s.buffer with
  | none => rfl
  | some buffer =>
    cases command with
    | userspaceRead | userspaceWrite => exact callDriver_memory _ _ _
    | kernelRead => rfl
    | kernelWrite => rfl

theorem enqueueKernel_memory (request : KernelRequest) :
    (s.enqueueKernel layout accepts request).2.memory = s.memory := by
  unfold enqueueKernel
  split
  · rfl
  split
  · exact callDriver_memory _ _ _
  split
  · rfl
  · rfl

theorem kernelCallback_memory (next : Option KernelRequest) :
    (s.kernelCallback layout accepts next).memory = s.memory := by
  cases next with
  | none => rfl
  | some request => exact enqueueKernel_memory layout accepts s request

end

variable [DecidableEq ι]

section

variable (layout : Layout) (accepts : DriverCall ι → Bool)

theorem enqueueUserspace_memory (s : Capsule ι)
    (command : NonvolatileCommand) (offset length : ℕ) (p : ι) :
    (s.enqueueUserspace layout accepts command offset length p).2.memory = s.memory := by
  unfold enqueueUserspace
  split
  · rfl
  dsimp only
  split
  · rfl
  split
  · rw [userspaceCallDriver_memory]
    unfold copyIn
    split <;> rfl
  split
  · rfl
  · rfl

theorem checkApps_memory (processes : List ι) (s : Capsule ι) :
    (s.checkApps layout accepts processes).memory = s.memory := by
  induction processes generalizing s with
  | nil => rfl
  | cons p rest ih =>
    by_cases hpending : (s.apps p).pendingCommand
    · have hcall := userspaceCallDriver_memory layout accepts (s.dequeue p)
        (s.apps p).command (s.apps p).offset (s.apps p).length (.app p (s.apps p).request)
      rw [checkApps, if_pos hpending]
      simp only
      split
      next s' hres => exact (congrArg (·.2.memory) hres).symm.trans hcall
      next s' hres => exact (ih s').trans ((congrArg (·.2.memory) hres).symm.trans hcall)
    · rw [checkApps, if_neg hpending]
      exact ih s

theorem checkQueue_memory (processes : List ι) (s : Capsule ι) :
    (s.checkQueue layout processes accepts).memory = s.memory := by
  unfold checkQueue
  split
  · cases s.kernelBuffer with
    | none => rfl
    | some kernelBuffer =>
      dsimp only
      split
      · exact callDriver_memory _ _ _
      · exact callDriver_memory _ _ _
      · rfl
  · exact checkApps_memory layout accepts processes s

end

/-! ## The completion of a call -/

def Capsule.finish (s : Capsule ι) (call : DriverCall ι) : Capsule ι :=
  { s with
    driver := none
    currentUser := none
    storage :=
      if call.write then
        store s.storage call.address (call.buffer.take call.length)
      else
        s.storage }

def Capsule.handBack (s : Capsule ι) (call : DriverCall ι) (p : ι) : Capsule ι :=
  let bytes := load s.storage call.address call.length
  { s.finish call with
    buffer := some (if call.write then call.buffer else
      overwrite call.buffer bytes)
    readBuffer :=
      if call.write then
        s.readBuffer
      else
        Function.update s.readBuffer p (overwrite (s.readBuffer p)
          (bytes.take (s.readBuffer p).length)) }

variable {layout : Layout} {s : Capsule ι} {call : DriverCall ι} {p : ι}
  {request : Request} {accepts : DriverCall ι → Bool} {processes : List ι}
  {event : Event ι}

theorem completeCall_kernel (hdriver : s.driver = some call) (huser : s.currentUser = some .kernel)
    (processes : List ι) (accepts : DriverCall ι → Bool) (next : Option KernelRequest) :
    s.completeCall layout processes accepts next =
      ((s.finish call).kernelCallback layout accepts next).checkQueue layout processes accepts := by
  unfold completeCall
  rw [hdriver]
  cases hwrite : call.write <;>
    simp [readDone, writeDone, finish, huser, hwrite]

theorem completeCall_app (hdriver : s.driver = some call) (huser : s.currentUser = some (.app p))
    (processes : List ι) (accepts : DriverCall ι → Bool) (next : Option KernelRequest) :
    s.completeCall layout processes accepts next =
      (s.handBack call p).checkQueue layout processes accepts := by
  unfold completeCall
  rw [hdriver]
  cases hwrite : call.write with
  | true => simp [writeDone, handBack, finish, huser, hwrite]
  | false =>
    have htake : (overwrite call.buffer (load s.storage call.address call.length)).take
          (min (s.readBuffer p).length call.length) = (load s.storage call.address call.length).take
          (s.readBuffer p).length := by
      rw [take_overwrite (by rw [length_load]; exact Nat.min_le_right _ _),
        List.take_eq_take_iff, length_load]
      omega
    simp [readDone, handBack, finish, huser, hwrite, htake]

omit [DecidableEq ι] in
theorem enqueueKernel_apps (layout : Layout) (accepts : DriverCall ι → Bool)
    (s : Capsule ι) (request : KernelRequest) :
    (s.enqueueKernel layout accepts request).2.apps = s.apps := by
  unfold enqueueKernel
  split
  · rfl
  split
  · rcases callDriver_cases accepts _ _ with ⟨-, hres⟩ | hres <;>
      rw [hres]
  split
  · rfl
  · rfl

theorem Invariant.handBack (hs : Invariant layout s) (call : DriverCall ι) (p : ι) :
    Invariant layout (s.handBack call p) :=
  .of_idle rfl (by rintro q ⟨⟩) (fun _ _ => rfl) hs.queued

omit [DecidableEq ι] in
theorem Invariant.finish (hs : Invariant layout s)
    (huser : s.currentUser = some .kernel) (call : DriverCall ι) :
    Invariant layout (s.finish call) := by
  refine .of_idle rfl (by rintro q ⟨⟩) (fun hrefused _ => ?_) hs.queued
  exact hs.present hrefused (by rw [huser]; rintro p ⟨⟩)

theorem Invariant.completeCall (hfits : layout.Fits) (hs : Invariant layout s)
    (processes : List ι) (accepts : DriverCall ι → Bool) {next : Option KernelRequest}
    (hnext : next.isSome → ∀ p, (s.apps p).pendingCommand = false) :
    Invariant layout (s.completeCall layout processes accepts next) := by
  cases hdriver : s.driver with
  | none =>
    unfold Capsule.completeCall
    rw [hdriver]
    exact hs
  | some call =>
    have huser := hs.user call hdriver
    cases horigin : call.origin with
    | app p request =>
      rw [horigin] at huser
      rw [completeCall_app hdriver huser]
      exact (hs.handBack call p).checkQueue hfits accepts processes rfl
    | kernel =>
      rw [horigin] at huser
      rw [completeCall_kernel hdriver huser]
      have hfinish := hs.finish huser call
      cases next with
      | none => exact hfinish.checkQueue hfits accepts processes rfl
      | some request =>
        have hcallback := hfinish.enqueueKernel accepts request
        have hdone : (s.finish call).currentUser = none := rfl
        rcases enqueueKernel_idle hdone accepts request with
          hidle | hbuf
        · exact hcallback.checkQueue hfits accepts processes hidle
        rw [Capsule.kernelCallback, checkQueue_eq_self _ hbuf]
        · exact hcallback
        · rw [enqueueKernel_apps]
          exact hnext rfl

/-! ## Requests in hand -/

def Capsule.InHand (s : Capsule ι) (p : ι) (request : Request) : Prop :=
  (∃ call, s.driver = some call ∧ call.origin = .app p request) ∨
    ((s.apps p).pendingCommand = true ∧ (s.apps p).request = request)

/-- A step that neither completes a call nor starts a waiting command. -/
structure Keeps (s s' : Capsule ι) : Prop where
  driver : ∀ call, s.driver = some call → s'.driver = some call
  apps : ∀ p, (s.apps p).pendingCommand = true → s'.apps p = s.apps p

omit [DecidableEq ι] in
theorem Keeps.inHand {s' : Capsule ι} (h : Keeps s s')
    (hin : s.InHand p request) : s'.InHand p request := by
  rcases hin with ⟨call, hdriver, horigin⟩ | ⟨hpending, hrequest⟩
  · exact .inl ⟨call, h.driver call hdriver, horigin⟩
  refine .inr ?_
  rw [h.apps p hpending]
  exact ⟨hpending, hrequest⟩

section

variable (accepts)

theorem keeps_enqueueUserspace (hfits : layout.Fits) (hs : Invariant layout s)
    {command : NonvolatileCommand} (hcommand : command = .userspaceRead ∨ command = .userspaceWrite)
    (offset length : ℕ) (p : ι) :
    Keeps s (s.enqueueUserspace layout accepts command offset length p).2 := by
  rcases enqueueUserspace_cases hfits accepts s command offset length p with
    ⟨_, hres⟩ |
    ⟨-, -, ⟨hidle, hres⟩ | ⟨-, hpending, hres⟩⟩ <;>
    rw [hres]
  · exact ⟨fun _ hcall => hcall, fun _ _ => rfl⟩
  · have hdriver := hs.driver_eq_none hidle
    refine ⟨fun call hcall => by simp [hdriver] at hcall, fun q _ => ?_⟩
    rcases userspaceCallDriver_cases layout accepts
        (s.begin (s.requestOf command offset length p) p)
        (s.requestOf command offset length p) p hcommand with
      ⟨-, hcall⟩ | ⟨_, -, ⟨-, hcall⟩ | hcall⟩ <;>
      rw [hcall, begin_frame]
  · refine ⟨fun _ hcall => hcall, fun q hq => ?_⟩
    have hqp : q ≠ p := by
      rintro rfl
      rw [hpending] at hq
      cases hq
    simp [enqueue, Function.update_of_ne hqp]

theorem inHand_enqueueUserspace (hfits : layout.Fits) (s : Capsule ι) {command : NonvolatileCommand}
    (hcommand : command = .userspaceRead ∨ command = .userspaceWrite) (offset length : ℕ) (p : ι)
    (hok : (s.enqueueUserspace layout accepts command offset length p).1 = .ok ()) :
    (s.enqueueUserspace layout accepts command offset length p).2.InHand p
      (s.requestOf command offset length p) := by
  rcases enqueueUserspace_cases hfits accepts s command offset length p with
    ⟨_, hres⟩ | ⟨-, -, ⟨-, hres⟩ | ⟨-, -, hres⟩⟩ <;>
    rw [hres] at hok ⊢
  · cases hok
  · rcases userspaceCallDriver_cases layout accepts
        (s.begin (s.requestOf command offset length p) p)
        (s.requestOf command offset length p) p hcommand with
      ⟨-, hcall⟩ | ⟨_, -, ⟨-, hcall⟩ | hcall⟩ <;>
      rw [hcall] at hok ⊢
    · cases hok
    · exact .inl ⟨_, rfl, rfl⟩
    · cases hok
  · exact .inr (by simp [enqueue])

omit [DecidableEq ι] in
theorem keeps_enqueueKernel (hs : Invariant layout s) (request : KernelRequest) :
    Keeps s (s.enqueueKernel layout accepts request).2 := by
  refine ⟨fun call hcall => ?_, fun p _ => by rw [enqueueKernel_apps]⟩
  have huser := hs.user call hcall
  unfold enqueueKernel
  split
  · exact hcall
  rw [if_neg (by simp [huser])]
  split
  · exact hcall
  · exact hcall

/-! ## The queue loses nothing -/

omit [DecidableEq ι] in
theorem callDriver_refused (h : s.refused) (call : DriverCall ι) :
    (s.callDriver accepts call).2.refused := by
  rcases callDriver_cases accepts s call with ⟨-, hres⟩ | hres <;>
    rw [hres]
  exact h

omit [DecidableEq ι] in
theorem userspaceCallDriver_refused (h : s.refused) (layout : Layout)
    (command : NonvolatileCommand) (offset length : ℕ) (origin : Origin ι) :
    (s.userspaceCallDriver layout accepts command offset length origin).2.refused := by
  unfold userspaceCallDriver
  cases s.buffer with
  | none => exact h
  | some buffer =>
    have htaken : ({ s with buffer := none } : Capsule ι).refused := h
    cases command with
    | userspaceRead | userspaceWrite => exact callDriver_refused _ htaken _
    | kernelRead => exact h
    | kernelWrite => exact h

theorem checkApps_refused (layout : Layout) (processes : List ι) (h : s.refused) :
    (s.checkApps layout accepts processes).refused := by
  induction processes generalizing s with
  | nil => exact h
  | cons p rest ih =>
    by_cases hpending : (s.apps p).pendingCommand
    · have hdequeue : (s.dequeue p).refused := h
      have hcall := userspaceCallDriver_refused accepts hdequeue layout
        (s.apps p).command (s.apps p).offset (s.apps p).length (.app p (s.apps p).request)
      rw [checkApps, if_pos hpending]
      simp only
      split
      next s' hres => exact (congrArg (·.2.refused) hres).symm.trans hcall
      next s' hres => exact ih ((congrArg (·.2.refused) hres).symm.trans hcall)
    · rw [checkApps, if_neg hpending]
      exact ih h

end

section

variable (hs : Invariant layout s) (hidle : s.currentUser = none)
  (hpending : (s.apps p).pendingCommand = true)
include hs hidle hpending

theorem inHand_checkApps (hrefused : (s.checkApps layout accepts processes).refused = false) :
    (s.checkApps layout accepts processes).InHand p (s.apps p).request := by
  induction processes with
  | nil => exact .inr ⟨hpending, rfl⟩
  | cons q rest ih =>
    by_cases hq : (s.apps q).pendingCommand
    swap
    · rw [checkApps, if_neg hq] at hrefused ⊢
      exact ih hrefused
    have hqueued := hs.queued q hq
    rw [checkApps_cons_pending hq hqueued] at hrefused ⊢
    rcases userspaceCallDriver_cases layout accepts (s.dequeue q)
        (s.apps q).request q (.inl hqueued.requested) with
      ⟨hbuf, hres⟩ | ⟨buffer, -, ⟨-, hres⟩ | hres⟩ <;>
      rw [hres] at hrefused ⊢
    · -- The buffer is only missing after a call was turned away.
      have hbefore : s.refused := by
        by_contra hnot
        have hsome := hs.present (by simpa using hnot) (by simp [hidle])
        rw [show s.buffer = none from hbuf] at hsome
        cases hsome
      have hafter : (s.dequeue q).refused := hbefore
      rw [checkApps_refused accepts layout rest hafter] at hrefused
      cases hrefused
    · by_cases hpq : p = q
      · subst hpq
        exact .inl ⟨_, rfl, rfl⟩
      · exact .inr (by simp [dequeue, hpq, hpending])
    · rw [checkApps_refused accepts layout rest rfl] at hrefused
      cases hrefused

theorem inHand_checkQueue (hrefused : (s.checkQueue layout processes accepts).refused = false) :
    (s.checkQueue layout processes accepts).InHand p (s.apps p).request := by
  unfold checkQueue at hrefused ⊢
  by_cases hkernel : s.kernelPendingCommand
  · rw [if_pos hkernel]
    refine .inr ?_
    cases s.kernelBuffer with
    | none => exact ⟨hpending, rfl⟩
    | some kernelBuffer =>
      dsimp only
      split
      · rcases callDriver_cases accepts _ _ with ⟨-, hcall⟩ | hcall <;>
          rw [hcall] <;> exact ⟨hpending, rfl⟩
      · rcases callDriver_cases accepts _ _ with ⟨-, hcall⟩ | hcall <;>
          rw [hcall] <;> exact ⟨hpending, rfl⟩
      · exact ⟨hpending, rfl⟩
  · rw [if_neg hkernel] at hrefused ⊢
    exact inHand_checkApps hs hidle hpending hrefused

end

theorem inHand_completeCall (hs : Invariant layout s) {next : Option KernelRequest}
    (hnext : next.isSome → ∀ p, (s.apps p).pendingCommand = false)
    (hpending : (s.apps p).pendingCommand)
    (hrefused : (s.completeCall layout processes accepts next).refused = false) :
    (s.completeCall layout processes accepts next).InHand p (s.apps p).request := by
  have hnone : next = none := by
    cases next with
    | none => rfl
    | some request =>
      rw [hnext rfl p] at hpending
      cases hpending
  subst hnone
  cases hdriver : s.driver with
  | none =>
    unfold completeCall
    rw [hdriver]
    exact .inr ⟨hpending, rfl⟩
  | some call =>
    have huser := hs.user call hdriver
    cases horigin : call.origin with
    | app q request =>
      rw [horigin] at huser
      rw [completeCall_app hdriver huser] at hrefused ⊢
      exact inHand_checkQueue (hs.handBack call q) rfl hpending hrefused
    | kernel =>
      rw [horigin] at huser
      rw [completeCall_kernel hdriver huser] at hrefused ⊢
      exact inHand_checkQueue (hs.finish huser call) rfl hpending hrefused

/-! ## Runs -/

/-- The kernel's call is not in progress when a process writes, and the kernel
makes no request from inside its callback while a process waits. -/
def Admissible (s : Capsule ι) : Event ι → Prop
  | .command commandNum _ _ _ =>
    commandNum = 3 → s.currentUser ≠ some .kernel
  | .complete next =>
    next.isSome = true → ∀ p, (s.apps p).pendingCommand = false
  | _ => True

structure Capsule.Fresh (s : Capsule ι) : Prop where
  apps : ∀ p, (s.apps p).pendingCommand = false
  buffer : s.buffer.isSome = true
  currentUser : s.currentUser = none
  kernelPendingCommand : s.kernelPendingCommand = false
  kernelBuffer : s.kernelBuffer = none
  driver : s.driver = none
  refused : s.refused = false

inductive Reachable (layout : Layout) (processes : List ι) : Capsule ι → Prop where
  | start (s : Capsule ι) (hfresh : s.Fresh) : Reachable layout processes s
  | step {s : Capsule ι} (accepts : DriverCall ι → Bool) (event : Event ι)
      (hs : Reachable layout processes s) (hevent : Admissible s event) :
      Reachable layout processes (step layout processes accepts s event)

theorem Invariant.step (hfits : layout.Fits) (hs : Invariant layout s)
    (processes : List ι) (accepts : DriverCall ι → Bool) (hevent : Admissible s event) :
    Invariant layout (step layout processes accepts s event) := by
  cases event with
  | allowReadonly p buffer | allowReadwrite p buffer =>
    exact ⟨hs.user, hs.away, hs.present, hs.serves, hs.queued⟩
  | command commandNum offset length p =>
    match commandNum, hevent with
    | 0, _ => exact hs
    | 1, _ => exact hs
    | 2, _ =>
      exact hs.enqueueUserspace hfits (.inl rfl) (by rintro ⟨⟩)
    | 3, hevent =>
      exact hs.enqueueUserspace hfits (.inr rfl) fun _ => hevent rfl
    | _ + 4, _ => exact hs
  | kernelRequest request => exact hs.enqueueKernel accepts request
  | complete next => exact hs.completeCall hfits processes accepts hevent

theorem Reachable.invariant (hfits : layout.Fits) (h : Reachable layout processes s) :
    Invariant layout s := by
  induction h with
  | start s hfresh =>
    refine .of_idle hfresh.driver ?_ (fun _ _ => hfresh.buffer) ?_
    · intro p hp
      rw [hfresh.currentUser] at hp
      cases hp
    · intro p hp
      rw [hfresh.apps p] at hp
      cases hp
  | step accepts event _ hevent ih =>
    exact ih.step hfits _ accepts hevent

theorem step_memory (layout : Layout) (processes : List ι)
    (accepts : DriverCall ι → Bool) (s : Capsule ι) (hcomplete : ∀ next, event ≠ .complete next) :
    (step layout processes accepts s event).storage = s.storage ∧
      ∀ p, (∀ buffer, event ≠ .allowReadwrite p buffer) →
        (step layout processes accepts s event).readBuffer p = s.readBuffer p := by
  cases event with
  | allowReadonly q buffer => exact ⟨rfl, fun _ _ => rfl⟩
  | allowReadwrite q buffer =>
    refine ⟨rfl, fun p hp => Function.update_of_ne ?_ _ _⟩
    rintro rfl
    exact hp buffer rfl
  | command commandNum offset length q =>
    have hmemory : (step layout processes accepts s
        (.command commandNum offset length q)).memory = s.memory := by
      match commandNum with
      | 0 => rfl
      | 1 => rfl
      | 2 => exact enqueueUserspace_memory layout accepts s _ offset length q
      | 3 => exact enqueueUserspace_memory layout accepts s _ offset length q
      | _ + 4 => rfl
    rw [memory, Prod.mk.injEq] at hmemory
    exact ⟨hmemory.1, fun p _ => congrFun hmemory.2 p⟩
  | kernelRequest request =>
    have hmemory := enqueueKernel_memory layout accepts s request
    rw [Prod.mk.injEq] at hmemory
    exact ⟨hmemory.1, fun p _ => congrFun hmemory.2 p⟩
  | complete next => exact absurd rfl (hcomplete next)

/-- A request that is accepted is in hand until the device carries out the call
that serves it; a write then stores the bytes that were shared, a read hands out
the stored bytes, and nobody's buffer is touched by a call made for somebody
else. -/
structure Isolated (layout : Layout) (processes : List ι) (s : Capsule ι) : Prop where
  serves : ∀ call p request, s.driver = some call →
    call.origin = .app p request → Serves layout call request
  accepted : ∀ accepts command offset length p,
    command = .userspaceRead ∨ command = .userspaceWrite →
    (s.enqueueUserspace layout accepts command offset length p).1 = .ok () →
    (s.enqueueUserspace layout accepts command offset length p).2.InHand p
      (s.requestOf command offset length p)
  kept : ∀ accepts event p request, Admissible s event → s.InHand p request →
    (step layout processes accepts s event).refused = false →
    (step layout processes accepts s event).InHand p request ∨ (∃ next, event = .complete next) ∧
        ∃ call, s.driver = some call ∧ call.origin = .app p request
  completed : ∀ accepts next call p request, s.driver = some call → call.origin = .app p request →
    let address := layout.userspaceStartAddress + request.offset
    let s' := step layout processes accepts s (.complete next)
    s'.storage = (if request.command = .userspaceWrite then
        store s.storage address (request.allowed.take call.length)
      else s.storage) ∧
    s'.readBuffer = (if request.command = .userspaceRead then
        Function.update s.readBuffer p (overwrite (s.readBuffer p)
          ((load s.storage address call.length).take (s.readBuffer p).length))
      else s.readBuffer)
  kernel : ∀ accepts next call, s.driver = some call → call.origin = .kernel →
    (step layout processes accepts s (.complete next)).readBuffer = s.readBuffer
  unchanged : ∀ accepts event, (∀ next, event ≠ .complete next) →
    (step layout processes accepts s event).storage = s.storage ∧
      ∀ p, (∀ buffer, event ≠ .allowReadwrite p buffer) →
        (step layout processes accepts s event).readBuffer p = s.readBuffer p

theorem inHand_step (hfits : layout.Fits) (hs : Invariant layout s)
    (hevent : Admissible s event) (hin : s.InHand p request)
    (hrefused : (step layout processes accepts s event).refused = false) :
    (step layout processes accepts s event).InHand p request ∨ (∃ next, event = .complete next) ∧
        ∃ call, s.driver = some call ∧ call.origin = .app p request := by
  cases event with
  | allowReadonly q buffer | allowReadwrite q buffer => exact .inl hin
  | command commandNum offset length q =>
    refine .inl ?_
    match commandNum with
    | 0 => exact hin
    | 1 => exact hin
    | 2 =>
      exact (keeps_enqueueUserspace accepts hfits hs (.inl rfl) offset length q).inHand hin
    | 3 =>
      exact (keeps_enqueueUserspace accepts hfits hs (.inr rfl) offset length q).inHand hin
    | _ + 4 => exact hin
  | kernelRequest kernelRequest =>
    exact .inl ((keeps_enqueueKernel accepts hs kernelRequest).inHand hin)
  | complete next =>
    rcases hin with hcall | ⟨hpending, rfl⟩
    · exact .inr ⟨⟨next, rfl⟩, hcall⟩
    · exact .inl (inHand_completeCall hs hevent hpending hrefused)

theorem completed_app (hs : Invariant layout s) (accepts : DriverCall ι → Bool)
    (next : Option KernelRequest) (hdriver : s.driver = some call)
    (horigin : call.origin = .app p request) :
    let address := layout.userspaceStartAddress + request.offset
    (s.completeCall layout processes accepts next).memory =
      (if request.command = .userspaceWrite then
        store s.storage address (request.allowed.take call.length)
      else s.storage,
      if request.command = .userspaceRead then
        Function.update s.readBuffer p (overwrite (s.readBuffer p)
          ((load s.storage address call.length).take (s.readBuffer p).length))
      else s.readBuffer) := by
  intro address
  have hserves := hs.serves call p request hdriver horigin
  have huser := hs.user call hdriver
  rw [horigin] at huser
  rw [completeCall_app hdriver huser, checkQueue_memory]
  simp only [memory, handBack, finish]
  rw [hserves.kind, hserves.address]
  cases hwrite : call.write with
  | true => simp [address, hserves.bytes hwrite]
  | false => simp [address]

theorem completed_kernel (hs : Invariant layout s)
    (accepts : DriverCall ι → Bool) (next : Option KernelRequest)
    (hdriver : s.driver = some call) (horigin : call.origin = .kernel) :
    (s.completeCall layout processes accepts next).memory =
      ((s.finish call).storage, s.readBuffer) := by
  have huser := hs.user call hdriver
  rw [horigin] at huser
  rw [completeCall_kernel hdriver huser, checkQueue_memory, kernelCallback_memory]
  rfl

/-- In the runs that `Admissible` admits, requests of processes are served apart from each other. -/
theorem userspace_requests_isolated {layout : Layout} (hfits : layout.Fits)
    {processes : List ι} {s : Capsule ι} (hreachable : Reachable layout processes s) :
    Isolated layout processes s := by
  have hs := hreachable.invariant hfits
  refine ⟨hs.serves, ?_, ?_, ?_, ?_, ?_⟩
  · intro accepts command offset length p hcommand hok
    exact inHand_enqueueUserspace accepts hfits s hcommand offset length p hok
  · intro accepts event p request hevent hin hrefused
    exact inHand_step hfits hs hevent hin hrefused
  · intro accepts next call p request hdriver horigin
    exact Prod.ext_iff.mp (completed_app hs accepts next hdriver horigin)
  · intro accepts next call hdriver horigin
    exact (Prod.ext_iff.mp (completed_kernel hs accepts next hdriver horigin)).2
  · intro accepts event hcomplete
    exact step_memory layout processes accepts s hcomplete

def sampleLayout : Layout := ⟨100, 100, 0, 100⟩

theorem sampleLayout_fits : sampleLayout.Fits := ⟨by decide, by decide⟩

def sampleCapsule : Capsule (Fin 2) where
  apps _ := {}
  writeBuffer p := if p = 0 then [7, 7] else [1, 1]
  readBuffer _ := [0, 0]
  buffer := some [0, 0, 0, 0]
  currentUser := none
  kernelPendingCommand := false
  kernelCommand := .kernelRead
  kernelBuffer := none
  kernelReadwriteLength := 0
  kernelReadwriteAddress := 0
  storage _ := 0
  driver := none
  refused := false

theorem sampleCapsule_fresh : sampleCapsule.Fresh := ⟨fun _ => rfl, rfl, rfl, rfl, rfl, rfl, rfl⟩

def sampleStep (s : Capsule (Fin 2)) (event : Event (Fin 2)) : Capsule (Fin 2) :=
  step sampleLayout [0, 1] (fun _ => true) s event

def sampleWriting : Capsule (Fin 2) := sampleStep sampleCapsule (.command 3 10 2 0)

theorem reachable_sampleWriting : Reachable sampleLayout [0, 1] sampleWriting :=
  .step (fun _ => true) (.command 3 10 2 0) (.start _ sampleCapsule_fresh) (by rintro - ⟨⟩)

/-- The first process writes two bytes at offset 10. -/
theorem userspace_requests_isolated_sample :
    sampleWriting.driver.isSome = true ∧ Isolated sampleLayout [0, 1] sampleWriting :=
  ⟨by decide, userspace_requests_isolated sampleLayout_fits reachable_sampleWriting⟩

def kernelBusy : Capsule (Fin 2) :=
  [.command 3 0 2 0, .complete none, .kernelRequest ⟨true, [9], 0, 1⟩].foldl
    sampleStep sampleCapsule

/-- The second process then writes its bytes `[1, 1]` at offset 10, which is
accepted; what is stored there are the bytes `[7, 7]` of the first. -/
theorem queued_write_stores_other_bytes : sampleCapsule.Fresh ∧
      (kernelBusy.command sampleLayout (fun _ => true) 3 10 2 1).1.isOk = true ∧
      kernelBusy.writeBuffer 1 = [1, 1] ∧
      ([.command 3 10 2 1, .complete none, .complete none].foldl sampleStep
        kernelBusy).storage 110 = 7 ∧
      ([.command 3 10 2 1, .complete none, .complete none].foldl sampleStep
        kernelBusy).storage 111 = 7 :=
  ⟨sampleCapsule_fresh, by decide, by decide, by decide, by decide⟩

end TockKernel.NonvolatileStorage

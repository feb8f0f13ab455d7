import TockKernel.Machine
import TockKernel.NonvolatileStorage.Model

/-!
# Writes of processes to their own flash

A model of `capsules/extra/src/app_flash_driver.rs`. Whether the buffer of a
process fits its flash is checked when the command is made; a command that has
to wait writes the buffer that is shared by the time it is its turn.
-/

namespace TockKernel.AppFlash

open NonvolatileStorage (wrappingAdd overwrite)
open Function
open List (forall_mem_cons mem_cons_self mem_cons_of_mem replicate replicate_succ)

structure App where
  pendingCommand : Bool := false
  flashAddress : ℕ := 0

/-- A write issued to the storage driver, with the process whose command it
carries out and what that process shares then. -/
structure Issued (ι : Type*) where
  processid : ι
  flashAddress : ℕ
  bytes : List Byte
  shared : List Byte

structure Capsule (ι : Type*) where
  apps : ι → App
  /-- The buffer of each process, empty if it shares none. -/
  shared : ι → List Byte
  currentApp : Option ι
  buffer : Option (List Byte)
  /-- The buffer of the write in progress. -/
  writing : Option (List Byte)
  /-- All writes so far, the last one first. -/
  issued : List (Issued ι)

structure FlashRange where
  start : ℕ
  stop : ℕ

variable {ι : Type*}

namespace Capsule

/-- The shared bytes are copied to the buffer and written. A driver that turns
the write away keeps the buffer. -/
def write (accepts : Bool) (s : Capsule ι) (buffer : List Byte) (processid : ι)
    (flashAddress : ℕ) : Except ErrorCode Unit × Capsule ι :=
  let appBuffer := s.shared processid
  let length := min buffer.length appBuffer.length
  let buffer := overwrite buffer (appBuffer.take length)
  let s := { s with
    buffer := none
    issued := ⟨processid, flashAddress, buffer.take length, appBuffer⟩ :: s.issued }
  if accepts then
    (.ok (), { s with writing := some buffer })
  else
    (.error .busy, s)

variable [DecidableEq ι]

def enqueueWrite (ranges : ι → FlashRange) (accepts : Bool) (s : Capsule ι)
    (flashAddress : ℕ) (processid : ι) : Except ErrorCode Unit × Capsule ι :=
  let flashLength := (s.shared processid).length
  let range := ranges processid
  if flashAddress < range.start ∨ flashAddress ≥ range.stop ∨
      wrappingAdd flashAddress flashLength ≥ range.stop then
    (.error .inval, s)
  else if s.currentApp.isNone then
    let s := { s with currentApp := some processid }
    match s.buffer with
    | none => (.error .reserve, s)
    | some buffer => s.write accepts buffer processid flashAddress
  else if (s.apps processid).pendingCommand then
    (.error .nomem, s)
  else
    (.ok (), { s with
      apps := Function.update s.apps processid ⟨true, flashAddress⟩ })

def command (ranges : ι → FlashRange) (accepts : Bool) (s : Capsule ι)
    (commandNum arg1 : ℕ) (processid : ι) : Except ErrorCode Unit × Capsule ι :=
  match commandNum with
  | 0 => (.ok (), s)
  | 1 => s.enqueueWrite ranges accepts arg1 processid
  | _ => (.error .nosupport, s)

def dequeue (s : Capsule ι) (processid : ι) : Capsule ι :=
  { s with
    apps := Function.update s.apps processid
      { s.apps processid with pendingCommand := false }
    currentApp := some processid }

/-- The attempt to start the command of a process, and whether it was started.
The buffer is lost when the process shares one of another length. -/
def startPending (accepts : Bool) (s : Capsule ι) (processid : ι) : Bool × Capsule ι :=
  if (s.apps processid).pendingCommand then
    let flashAddress := (s.apps processid).flashAddress
    let s := s.dequeue processid
    match s.buffer with
    | none => (false, s)
    | some buffer =>
      if (s.shared processid).length ≠ 512 then
        (false, { s with buffer := none })
      else
        let (result, s) := s.write accepts buffer processid flashAddress
        (result.isOk, s)
  else
    (false, s)

/-- The loop over the processes in `write_done`. -/
def checkPending (accepts : Bool) : List ι → Capsule ι → Capsule ι
  | [], s => s
  | processid :: rest, s =>
    match s.startPending accepts processid with
    | (true, s) => s
    | (false, s) => checkPending accepts rest s

def writeDone (processes : List ι) (accepts : Bool) (s : Capsule ι)
    (buffer : List Byte) : Capsule ι :=
  checkPending accepts processes { s with buffer := some buffer, currentApp := none }

end Capsule

inductive Event (ι : Type*) where
  | allowReadonly (processid : ι) (buffer : List Byte)
  | command (commandNum arg1 : ℕ) (processid : ι)
  | complete

variable [DecidableEq ι]

def step (ranges : ι → FlashRange) (processes : List ι) (accepts : Bool)
    (s : Capsule ι) : Event ι → Capsule ι
  | .allowReadonly processid buffer =>
    { s with shared := Function.update s.shared processid buffer }
  | .command commandNum arg1 processid =>
    (s.command ranges accepts commandNum arg1 processid).2
  | .complete =>
    match s.writing with
    | none => s
    | some buffer =>
      Capsule.writeDone processes accepts { s with writing := none } buffer

/-! ## Writes inside the flash -/

/-- A write covers editable bytes of the process that asked for it, and writes
what that process shares. -/
structure Proper (ranges : ι → FlashRange) (write : Issued ι) : Prop where
  start : (ranges write.processid).start ≤ write.flashAddress
  stop : write.flashAddress + write.bytes.length ≤ (ranges write.processid).stop
  bytes : write.bytes = write.shared.take write.bytes.length

/-- What holds of a command that waits: 512 bytes fit at its address if that is
what the process shares. -/
def Fits (ranges : ι → FlashRange) (s : Capsule ι) (p : ι) : Prop :=
  (ranges p).start ≤ (s.apps p).flashAddress ∧ ((s.shared p).length = 512 →
      (s.apps p).flashAddress + 512 ≤ (ranges p).stop)

structure Invariant (ranges : ι → FlashRange) (s : Capsule ι) : Prop where
  issued : ∀ write ∈ s.issued, Proper ranges write
  waiting : ∀ p, (s.apps p).pendingCommand = true → Fits ranges s p

variable {ranges : ι → FlashRange} {s : Capsule ι}

section

variable (hs : Invariant ranges s)
include hs

omit [DecidableEq ι] in
theorem Invariant.write (accepts : Bool)
    (buffer : List Byte) {p : ι} {flashAddress : ℕ} (hstart : (ranges p).start ≤ flashAddress)
    (hstop : flashAddress + (s.shared p).length ≤ (ranges p).stop) :
    Invariant ranges (s.write accepts buffer p flashAddress).2 := by
  have htake : ((s.shared p).take (min buffer.length (s.shared p).length)).length =
      min buffer.length (s.shared p).length := by
    rw [List.length_take]
    omega
  have hbytes : (overwrite buffer ((s.shared p).take (min buffer.length (s.shared p).length))).take
        (min buffer.length (s.shared p).length) =
      (s.shared p).take (min buffer.length (s.shared p).length) := by
    rw [overwrite, List.take_append_of_le_length htake.ge, List.take_take, Nat.min_self]
  have hproper : Proper ranges ⟨p, flashAddress, (overwrite buffer
      ((s.shared p).take (min buffer.length (s.shared p).length))).take
        (min buffer.length (s.shared p).length), s.shared p⟩ := by
    rw [hbytes]
    exact ⟨hstart, by dsimp only; omega, by rw [htake]⟩
  unfold Capsule.write
  split
  all_goals exact ⟨forall_mem_cons.mpr ⟨hproper, hs.issued⟩, hs.waiting⟩

theorem Invariant.enqueueWrite (accepts : Bool) {flashAddress : ℕ} {p : ι}
    (hsum : flashAddress + (s.shared p).length < 2 ^ 32) :
    Invariant ranges (s.enqueueWrite ranges accepts flashAddress p).2 := by
  have hwraps : wrappingAdd flashAddress (s.shared p).length =
      flashAddress + (s.shared p).length := Nat.mod_eq_of_lt hsum
  simp only [Capsule.enqueueWrite]
  split
  next => exact hs
  next hrange =>
    have hstart : (ranges p).start ≤ flashAddress := by omega
    have hstop : flashAddress + (s.shared p).length ≤ (ranges p).stop := by omega
    split
    · have hcurrent : Invariant ranges { s with currentApp := some p } := ⟨hs.issued, hs.waiting⟩
      split
      next => exact hcurrent
      next buffer _ => exact hcurrent.write accepts buffer hstart hstop
    split
    · exact hs
    refine ⟨hs.issued, fun q hq => ?_⟩
    by_cases hqp : q = p
    · subst hqp
      refine ⟨by simpa using hstart, fun hlen => ?_⟩
      simp only [update_self] at hlen ⊢
      omega
    simp only [update_of_ne hqp] at hq
    have hfits := hs.waiting q hq
    simpa only [Fits, update_of_ne hqp] using hfits

theorem Invariant.dequeue (p : ι) : Invariant ranges (s.dequeue p) := by
  refine ⟨hs.issued, fun q hq => ?_⟩
  have hqp : q ≠ p := by
    rintro rfl
    simp [Capsule.dequeue] at hq
  simp only [Capsule.dequeue, update_of_ne hqp] at hq
  simpa only [Fits, Capsule.dequeue, update_of_ne hqp] using hs.waiting q hq

theorem Invariant.startPending (accepts : Bool) (p : ι) :
    Invariant ranges (s.startPending accepts p).2 := by
  unfold Capsule.startPending
  split
  next hpending =>
    have hdequeue := hs.dequeue p
    dsimp only
    cases (s.dequeue p).buffer with
    | none => exact hdequeue
    | some buffer =>
      dsimp only
      split
      next => exact ⟨hdequeue.issued, hdequeue.waiting⟩
      next hlen =>
        have hfits := hs.waiting p hpending
        have h512 : (s.shared p).length = 512 := not_not.mp hlen
        refine hdequeue.write accepts buffer hfits.1 ?_
        have hstop := hfits.2 h512
        rw [← h512] at hstop
        exact hstop
  next => exact hs

end

theorem Invariant.checkPending (accepts : Bool) (processes : List ι) (hs : Invariant ranges s) :
    Invariant ranges (s.checkPending accepts processes) := by
  induction processes generalizing s with
  | nil => exact hs
  | cons p rest ih =>
    have hstart := hs.startPending accepts p
    rw [Capsule.checkPending]
    split
    next s' hres => rw [hres] at hstart; exact hstart
    next s' hres => rw [hres] at hstart; exact ih hstart

/-! ## Runs -/

/-- Address and length of a write do not overflow, and a process whose command
waits does not share 512 bytes that run past the end of its flash. -/
def Admissible (ranges : ι → FlashRange) (s : Capsule ι) : Event ι → Prop
  | .allowReadonly p buffer =>
    (s.apps p).pendingCommand = true → buffer.length = 512 →
      (s.apps p).flashAddress + 512 ≤ (ranges p).stop
  | .command commandNum arg1 p => commandNum = 1 → arg1 + (s.shared p).length < 2 ^ 32
  | .complete => True

structure Capsule.Fresh (s : Capsule ι) : Prop where
  apps : ∀ p, (s.apps p).pendingCommand = false
  issued : s.issued = []

inductive Reachable (ranges : ι → FlashRange) (processes : List ι) : Capsule ι → Prop where
  | start (s : Capsule ι) (hfresh : s.Fresh) : Reachable ranges processes s
  | step {s : Capsule ι} (accepts : Bool) (event : Event ι) (hs : Reachable ranges processes s)
      (hevent : Admissible ranges s event) :
      Reachable ranges processes (step ranges processes accepts s event)

theorem Invariant.step (hs : Invariant ranges s) (processes : List ι)
    (accepts : Bool) {event : Event ι} (hevent : Admissible ranges s event) :
    Invariant ranges (step ranges processes accepts s event) := by
  cases event with
  | allowReadonly p buffer =>
    refine ⟨hs.issued, fun q hq => ?_⟩
    have hfits := hs.waiting q hq
    by_cases hqp : q = p
    · subst hqp
      refine ⟨hfits.1, fun hlen => hevent hq ?_⟩
      simpa [AppFlash.step] using hlen
    · refine ⟨hfits.1, fun hlen => hfits.2 ?_⟩
      simpa [AppFlash.step, hqp] using hlen
  | command commandNum arg1 p =>
    match commandNum with
    | 0 => exact hs
    | 1 => exact hs.enqueueWrite accepts (hevent rfl)
    | _ + 2 => exact hs
  | complete =>
    unfold AppFlash.step
    cases s.writing with
    | none => exact hs
    | some buffer =>
      exact Invariant.checkPending accepts processes ⟨hs.issued, hs.waiting⟩

theorem Reachable.invariant {processes : List ι} (h : Reachable ranges processes s) :
    Invariant ranges s := by
  induction h with
  | start s hfresh =>
    refine ⟨by simp [hfresh.issued], fun p hp => ?_⟩
    rw [hfresh.apps p] at hp
    cases hp
  | step accepts event _ hevent ih => exact ih.step _ accepts hevent

/-- Every write lies in the flash of the process that asked for it, and has the
bytes that the process shared. -/
theorem writes_inside_own_flash {ranges : ι → FlashRange} {processes : List ι}
    {s : Capsule ι} (h : Reachable ranges processes s) : ∀ write ∈ s.issued, Proper ranges write :=
  h.invariant.issued

/-! ## Two processes -/

def sampleRanges (p : Fin 2) : FlashRange :=
  if p.val = 0 then ⟨1000, 2000⟩ else ⟨2000, 3000⟩

def sampleCapsule : Capsule (Fin 2) where
  apps _ := {}
  shared _ := [1]
  currentApp := none
  buffer := some (List.replicate 512 0)
  writing := none
  issued := []

theorem sampleCapsule_fresh : sampleCapsule.Fresh := ⟨fun _ => rfl, rfl⟩

def sampleStep (s : Capsule (Fin 2)) (event : Event (Fin 2)) : Capsule (Fin 2) :=
  step sampleRanges (List.finRange 2) true s event

theorem writes_inside_own_flash_sample :
    (sampleStep sampleCapsule (.command 1 1000 0)).issued ≠ [] ∧
      ∀ write ∈ (sampleStep sampleCapsule (.command 1 1000 0)).issued, Proper sampleRanges write :=
  ⟨by decide, writes_inside_own_flash (.step true (.command 1 1000 0) (.start _ sampleCapsule_fresh)
      fun _ => by decide)⟩

/-- The second process writes; the first asks to write one byte near the end of
its flash, and shares 512 bytes while the command waits. They are written up to
2410. -/
theorem queued_write_leaves_flash : sampleCapsule.Fresh ∧ (([.command 1 2000 1, .command 1 1898 0,
        .allowReadonly 0 (List.replicate 512 3), .complete].foldl sampleStep
          sampleCapsule).issued.head?.map fun write =>
            (write.processid, write.flashAddress, write.bytes.length)) =
        some (0, 1898, 512) ∧
      (sampleRanges 0).stop = 2000 :=
  ⟨sampleCapsule_fresh, by decide +kernel, rfl⟩

/-! ## Answers -/

/-- The capsule, the processes that are alive, and the number of accepted writes of
each process less the number of its upcalls. -/
structure Served (ι : Type) where
  capsule : Capsule ι
  alive : ι → Bool
  owed : ι → ℤ

inductive Action (ι : Type) where
  | event (accepts : Bool) (event : Event ι)
  | dies (processid : ι)

section

open Capsule

variable {ι : Type} [DecidableEq ι]

/-- The grants of dead processes are gone when `write_done` looks for a command. -/
def Served.step (ranges : ι → FlashRange) (processes : List ι) (d : Served ι) :
    Action ι → Option (Served ι)
  | .dies p => some { d with alive := update d.alive p false }
  | .event accepts event =>
    let capsule := AppFlash.step ranges (processes.filter d.alive) accepts d.capsule event
    match event with
    | .allowReadonly p _ => if d.alive p then some { d with capsule := capsule } else none
    | .command commandNum arg1 p =>
      let result := (d.capsule.command ranges accepts commandNum arg1 p).1
      if d.alive p then
        some ⟨capsule, d.alive, fun q =>
          d.owed q + if q = p ∧ commandNum = 1 ∧ result.isOk then 1 else 0⟩
      else
        none
    | .complete =>
      if d.capsule.writing.isSome then
        some ⟨capsule, d.alive, fun q =>
          d.owed q - if d.alive q ∧ d.capsule.currentApp = some q then 1 else 0⟩
      else
        none

def Served.Waits (d : Served ι) (p : ι) : Prop :=
  d.alive p ∧ (d.capsule.apps p).pendingCommand

def Served.Ready (d : Served ι) : Prop :=
  ∀ p, d.Waits p → (d.capsule.shared p).length = 512

/-- The storage driver accepts every write, and processes whose commands wait
share 512 bytes when a write is done. -/
def Undisturbed (d : Served ι) : Action ι → Prop
  | .event accepts event => accepts ∧ (event = .complete → d.Ready)
  | .dies _ => True

/-- The buffer is with the storage driver while it works for the current process,
and each accepted write was answered, is in progress or waits for one to end. -/
structure Healthy (d : Served ι) : Prop where
  buffer : d.capsule.buffer = none ↔ d.capsule.writing ≠ none
  current : d.capsule.currentApp = none ↔ d.capsule.writing = none
  owed : ∀ p, d.alive p → d.owed p = (if d.capsule.currentApp = some p then 1 else 0) +
    if (d.capsule.apps p).pendingCommand then 1 else 0
  idle : d.capsule.writing = none → ∀ p, ¬ d.Waits p

def machine (ranges : ι → FlashRange) (processes : List ι) : Machine (Served ι) (Action ι) where
  Starts d := (∀ p, (d.capsule.apps p).pendingCommand = false ∧ d.owed p = 0) ∧
    d.capsule.currentApp = none ∧ d.capsule.buffer ≠ none ∧ d.capsule.writing = none
  step := Served.step ranges processes

/-- Enough completions answer every accepted write. -/
def Served.Drains (ranges : ι → FlashRange) (processes : List ι) (d : Served ι) : Prop :=
  ∃ n d', (machine ranges processes).steps (replicate n (.event true .complete)) d = some d' ∧
    d'.capsule.writing = none ∧ ∀ p, d.alive p → d'.owed p = 0

def Capsule.Started (s : Capsule ι) (p : ι) (s' : Capsule ι) : Prop :=
  ∃ writing issued, s' =
    { s with currentApp := some p, buffer := none, writing := some writing, issued := issued }

variable {ranges : ι → FlashRange} {processes : List ι} {s : Capsule ι} {d d' : Served ι}

theorem checkPending_cases {buffer : List Byte} (hbuf : s.buffer = some buffer)
    (hshared : ∀ p ∈ processes, (s.apps p).pendingCommand → (s.shared p).length = 512) :
    (s.checkPending true processes = s ∧ ∀ p ∈ processes, ¬ (s.apps p).pendingCommand) ∨
      ∃ p ∈ processes, (s.apps p).pendingCommand ∧
        (s.dequeue p).Started p (s.checkPending true processes) := by
  induction processes with
  | nil => exact .inl ⟨rfl, nofun⟩
  | cons p rest ih =>
    obtain ⟨hhead, hrest⟩ := forall_mem_cons.mp hshared
    by_cases hpending : (s.apps p).pendingCommand
    · refine .inr ⟨p, mem_cons_self, hpending, ?_⟩
      simp [Started, checkPending, startPending, hpending, dequeue, hbuf, hhead hpending,
        Capsule.write, Except.toBool]
    · have hnext : s.checkPending true (p :: rest) = s.checkPending true rest := by
        simp [checkPending, startPending, hpending]
      rw [hnext]
      rcases ih hrest with ⟨hsame, hnone⟩ | ⟨q, hq, hstarted⟩
      · exact .inl ⟨hsame, forall_mem_cons.mpr ⟨hpending, hnone⟩⟩
      · exact .inr ⟨q, mem_cons_of_mem _ hq, hstarted⟩

theorem enqueueWrite_cases (ranges : ι → FlashRange) (flashAddress : ℕ) (p : ι)
    (hbuf : s.currentApp = none → s.buffer ≠ none) :
    (∃ e, s.enqueueWrite ranges true flashAddress p = (.error e, s)) ∨
      ∃ s', s.enqueueWrite ranges true flashAddress p = (.ok (), s') ∧
        (s.currentApp = none ∧ s.Started p s' ∨
          s.currentApp ≠ none ∧ (s.apps p).pendingCommand = false ∧
            s' = { s with apps := update s.apps p ⟨true, flashAddress⟩ }) := by
  unfold enqueueWrite
  dsimp only
  split_ifs with hrange hcurrent hpending
  · exact .inl ⟨_, rfl⟩
  · have hnone := Option.isNone_iff_eq_none.mp hcurrent
    obtain ⟨_, hsome⟩ := Option.ne_none_iff_exists'.mp (hbuf hnone)
    rw [hsome]
    exact .inr ⟨_, rfl, .inl ⟨hnone, _, _, rfl⟩⟩
  · exact .inl ⟨_, rfl⟩
  · exact .inr ⟨_, rfl, .inr ⟨by simpa using hcurrent, by simpa using hpending, rfl⟩⟩

theorem Healthy.settled (hd : Healthy d) (hidle : d.capsule.writing = none) {p : ι}
    (hp : d.alive p) : d.owed p = 0 := by
  have hnone : ¬ (d.capsule.apps p).pendingCommand := fun h => hd.idle hidle p ⟨hp, h⟩
  simp [hd.owed p hp, hd.current.mpr hidle, hnone]

section

variable (hd : Healthy d) (hall : ∀ p, p ∈ processes)
include hd hall

/-- When a write is done, the capsule is idle or works for a process that waited. -/
theorem Healthy.complete (hready : d.Ready)
    (hstep : d.step ranges processes (.event true .complete) = some d') :
    Healthy d' ∧ d'.Ready ∧ d'.alive = d.alive ∧
      (d'.capsule.writing = none ∨ ∃ p, d.Waits p ∧ ∀ q, d'.Waits q ↔ q ≠ p ∧ d.Waits q) := by
  cases hwriting : d.capsule.writing with
  | none => simp [Served.step, hwriting] at hstep
  | some buffer =>
    simp only [Served.step, hwriting, Option.isSome_some, if_true, Option.some.injEq,
      AppFlash.step, writeDone] at hstep
    have hlive : ∀ p, p ∈ processes.filter d.alive ↔ d.alive p := by simp [hall]
    let s := { d.capsule with writing := none, buffer := some buffer, currentApp := none }
    have hshared : ∀ p ∈ processes.filter d.alive, (s.apps p).pendingCommand →
        (s.shared p).length = 512 :=
      fun p hp hpending => hready p ⟨(hlive p).mp hp, hpending⟩
    rcases checkPending_cases rfl hshared with ⟨hsame, hnone⟩ | ⟨p, hp, hpending, _, _, hstarted⟩
    · rw [hsame] at hstep
      subst hstep
      refine ⟨⟨by simp [s], by simp [s], fun p hp => ?_, fun _ p hp => ?_⟩, hready, rfl, .inl rfl⟩
      · have hp : d.alive p := hp
        simp [s, hd.owed p hp, hp]
      · exact hnone p ((hlive p).mpr hp.1) hp.2
    · rw [hstarted] at hstep
      subst hstep
      have hwaits : ∀ q, d.alive q ∧ ((s.dequeue p).apps q).pendingCommand ↔ q ≠ p ∧ d.Waits q := by
        intro q
        by_cases hqp : q = p <;> simp [hqp, dequeue, Served.Waits, s]
      refine ⟨⟨by simp, by simp, fun q hq => ?_, nofun⟩, fun q hq => hready q ((hwaits q).mp hq).2,
        rfl, .inr ⟨p, ⟨(hlive p).mp hp, hpending⟩, hwaits⟩⟩
      have hq : d.alive q := hq
      simp only [hd.owed q hq, hq]
      have hp' : (d.capsule.apps p).pendingCommand := hpending
      rcases eq_or_ne q p with rfl | hqp
      · simp [dequeue, hp']
      · simp [dequeue, hqp, hqp.symm, s]

theorem Healthy.step {action : Action ι} (hallowed : Undisturbed d action)
    (hstep : d.step ranges processes action = some d') : Healthy d' := by
  cases action with
  | dies p =>
    obtain rfl := Option.some.inj hstep
    have hlive : ∀ q, update d.alive p false q → d.alive q := by simp [update_apply]
    exact ⟨hd.buffer, hd.current, fun q hq => hd.owed q (hlive q hq),
      fun hidle q hq => hd.idle hidle q ⟨hlive q hq.1, hq.2⟩⟩
  | event accepts event =>
    obtain ⟨rfl, hready⟩ := hallowed
    cases event with
    | complete => exact (hd.complete hall (hready rfl) hstep).1
    | allowReadonly p buffer =>
      simp only [Served.step, Option.ite_none_right_eq_some, Option.some.injEq] at hstep
      obtain ⟨-, rfl⟩ := hstep
      exact ⟨hd.buffer, hd.current, hd.owed, hd.idle⟩
    | command commandNum arg1 p =>
      simp only [Served.step, Option.ite_none_right_eq_some, Option.some.injEq] at hstep
      obtain ⟨-, rfl⟩ := hstep
      match commandNum with
      | 0 | _ + 2 => simpa [AppFlash.step, command] using hd
      | 1 =>
        have hbuf : d.capsule.currentApp = none → d.capsule.buffer ≠ none :=
          fun hnone hlost => hd.buffer.mp hlost (hd.current.mp hnone)
        simp only [AppFlash.step, command]
        rcases enqueueWrite_cases ranges arg1 p hbuf with ⟨e, herror⟩ | ⟨_, hok, hcases⟩
        · simpa [herror, Except.toBool] using hd
        simp only [hok, Except.toBool]
        rcases hcases with ⟨hnone, _, _, rfl⟩ | ⟨hbusy, hpending, rfl⟩
        · refine ⟨by simp, by simp, fun q hq => ?_, nofun⟩
          simp [hd.owed q hq, hnone, add_comm, @eq_comm _ q p]
        · refine ⟨hd.buffer, hd.current, fun q hq => ?_,
            fun hidle => (mt hd.current.mpr hbusy hidle).elim⟩
          rcases eq_or_ne q p with rfl | hqp
          · simp [hd.owed q hq, hpending]
          · simp [hd.owed q hq, hqp]

theorem Healthy.drains (hready : d.Ready) : d.Drains ranges processes := by
  classical
  -- The number of processes that wait becomes smaller with each write that starts.
  induction hn : (processes.toFinset.filter d.Waits).card using Nat.strong_induction_on
    generalizing d with
  | _ n ih =>
    by_cases hidle : d.capsule.writing = none
    · exact ⟨0, d, rfl, hidle, fun _ => hd.settled hidle⟩
    obtain ⟨d', hstep⟩ : ∃ d', d.step ranges processes (.event true .complete) = some d' := by
      simp [Served.step, Option.isSome_iff_ne_none, hidle]
    obtain ⟨hd', hready', halive, hdone | ⟨p, hp, hrest⟩⟩ := hd.complete hall hready hstep
    · exact ⟨1, d', by simp [Machine.steps, machine, hstep], hdone,
        halive ▸ fun _ => hd'.settled hdone⟩
    have herase : processes.toFinset.filter d'.Waits =
        (processes.toFinset.filter d.Waits).erase p := by
      ext q
      simp [hrest, hall]
    have hfewer : (processes.toFinset.filter d'.Waits).card < n := by
      rw [herase, ← hn]
      exact Finset.card_erase_lt_of_mem (by simp [hall, hp])
    obtain ⟨k, last, hsteps, hlast⟩ := ih _ hfewer hd' hready' rfl
    refine ⟨k + 1, last, ?_, halive ▸ hlast⟩
    exact Option.bind_eq_some_iff.mpr ⟨d', hstep, hsteps⟩

end

/-- In undisturbed runs no write is lost: enough completions answer all that were accepted. -/
theorem writes_recover {ranges : ι → FlashRange} {processes : List ι} {d : Served ι}
    (hall : ∀ p, p ∈ processes) (h : (machine ranges processes).Run Undisturbed d) :
    Healthy d ∧ (d.Ready → d.Drains ranges processes) := by
  have hd : Healthy d := by
    refine h.invariant (fun d hd => ?_) fun d d' action hd => hd.step hall
    obtain ⟨hnone, hcurrent, hbuf, hwriting⟩ := hd
    exact ⟨by simp [hbuf, hwriting], by simp [hcurrent, hwriting], by simp [hnone, hcurrent],
      fun _ p hp => by simp [Served.Waits, hnone] at hp⟩
  exact ⟨hd, hd.drains hall⟩

end

def sampleServed : Served (Fin 2) :=
  ⟨sampleCapsule, fun _ => true, fun _ => 0⟩

theorem writes_recover_sample : ∃ d, d.owed 0 = 1 ∧ Healthy d ∧
    (d.Ready → d.Drains sampleRanges [0, 1]) :=
  ⟨_, rfl, writes_recover (by decide) (.step (a := .event true (.command 1 1000 0))
    (.start (s := sampleServed) ⟨fun _ => ⟨rfl, rfl⟩, rfl, nofun, rfl⟩) ⟨rfl, nofun⟩ rfl)⟩

/-- The first process shares a single byte when the write of the second is done:
the buffer is lost, and the first process stays the current one with no upcall. -/
theorem queued_short_write_loses_buffer : (machine sampleRanges [0, 1]).Starts sampleServed ∧
    ((machine sampleRanges [0, 1]).steps [.event true (.command 1 2000 1),
      .event true (.command 1 1000 0), .event true .complete] sampleServed).map (fun d =>
        (d.capsule.buffer, d.capsule.writing, d.capsule.currentApp, d.owed 0)) =
      some (none, none, some 0, 1) :=
  ⟨⟨fun _ => ⟨rfl, rfl⟩, rfl, nofun, rfl⟩, by decide +kernel⟩

end TockKernel.AppFlash

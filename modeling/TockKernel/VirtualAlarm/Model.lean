import Mathlib

/-!
# The alarm multiplexer

A model of `capsules/core/src/virtualizers/virtual_alarm.rs`. Time is a
natural number and the counter shows its low bits. A point in time that the
code keeps as a counter value is kept here as the time itself, and every
computation of the code goes through the counter value.
-/

namespace TockKernel.VirtualAlarm

variable {w : ℕ} {ι : Type} [DecidableEq ι]

def halfMaxValue (w : ℕ) : BitVec w := 1 + BitVec.allOnes w / 2

def withinRange (ticks start stop : BitVec w) : Bool :=
  decide (ticks - start < stop - start)

/-! ## State -/

structure TickDtReference (w : ℕ) where
  since : ℕ
  dt : BitVec w
  extended : Bool

namespace TickDtReference

def reference (r : TickDtReference w) : BitVec w := .ofNat w r.since

def referencePlusDt (r : TickDtReference w) : BitVec w := r.reference + r.dt

end TickDtReference

structure VirtualMuxAlarm (w : ℕ) where
  dtReference : TickDtReference w
  armed : Bool

def VirtualMuxAlarm.disarmed (v : VirtualMuxAlarm w) : VirtualMuxAlarm w :=
  { v with armed := false }

/-- The underlying alarm. `fireAt` is when it raises its interrupt, if it is
armed. -/
structure Hardware (w : ℕ) where
  since : ℕ
  dt : BitVec w
  fireAt : Option ℕ

namespace Hardware

def reference (h : Hardware w) : BitVec w := .ofNat w h.since

def getAlarm (h : Hardware w) : BitVec w := h.reference + h.dt

/-- The alarm fires when the counter shows `reference + dt`, and at once if the
counter has already passed that value. -/
def setAlarm (time since : ℕ) (dt : BitVec w) : Hardware w where
  since := since
  dt := dt
  fireAt :=
    let now := BitVec.ofNat w time
    let expiration := BitVec.ofNat w since + dt
    some (if withinRange now (.ofNat w since) expiration then
      time + (expiration - now).toNat else time)

def disarm (h : Hardware w) : Hardware w := { h with fireAt := none }

end Hardware

structure MuxAlarm (w : ℕ) (ι : Type) where
  alarms : ι → VirtualMuxAlarm w
  enabled : ℕ
  firing : Bool
  nextTickVals : Option (BitVec w × BitVec w)
  hardware : Hardware w

namespace MuxAlarm

def setAlarm (mux : MuxAlarm w ι) (time since : ℕ) (dt : BitVec w) : MuxAlarm w ι :=
  { mux with
    nextTickVals := some (.ofNat w since, dt)
    hardware := .setAlarm time since dt }

def disarm (mux : MuxAlarm w ι) : MuxAlarm w ι :=
  { mux with nextTickVals := none, hardware := mux.hardware.disarm }

/-! ## Virtual alarms -/

/-- `disarm` of a virtual alarm. `nextTickVals` stays as it is. -/
def disarmVirtual (mux : MuxAlarm w ι) (i : ι) : MuxAlarm w ι :=
  if (mux.alarms i).armed then
    let enabled := mux.enabled - 1
    { mux with
      alarms := Function.update mux.alarms i (mux.alarms i).disarmed
      enabled := enabled
      hardware := if enabled = 0 then mux.hardware.disarm else mux.hardware }
  else
    mux

/-- A long `dt` is split, so that half of the range of the counter is left for
latency. -/
def splitDt (minimumDt : BitVec w) (since : ℕ) (dt : BitVec w) : TickDtReference w :=
  if dt > halfMaxValue w + minimumDt then
    { since, dt := dt - halfMaxValue w, extended := true }
  else
    { since, dt, extended := false }

def notYetFired (mux : MuxAlarm w ι) (time : ℕ) : Bool :=
  match mux.nextTickVals with
  | none => true
  | some (nextReference, nextDt) =>
    withinRange (.ofNat w time) nextReference (nextReference + nextDt)

def setVirtual (minimumDt : BitVec w) (mux : MuxAlarm w ι) (time : ℕ) (i : ι)
    (since : ℕ) (dt : BitVec w) : MuxAlarm w ι :=
  let dtReference := splitDt minimumDt since dt
  let enabled := mux.enabled
  let mux := { mux with
    alarms := Function.update mux.alarms i { dtReference, armed := true }
    enabled := if (mux.alarms i).armed then enabled else enabled + 1 }
  if enabled = 0 then
    mux.setAlarm time since dtReference.dt
  else if mux.firing then
    mux
  else if withinRange mux.hardware.getAlarm dtReference.reference dtReference.referencePlusDt then
    -- The current alarm will fire earlier.
    mux
  else if mux.notYetFired time then
    mux.setAlarm time since dtReference.dt
  else
    mux

/-! ## Alarm handling -/

def expired (time : ℕ) (r : TickDtReference w) : Bool :=
  !withinRange (.ofNat w time) r.reference r.referencePlusDt

/-- The loop of `alarm` at one virtual alarm, up to the call of its client, and
whether the client is called. -/
def service (mux : MuxAlarm w ι) (time : ℕ) (i : ι) : MuxAlarm w ι × Bool :=
  let v := mux.alarms i
  if v.armed && expired time v.dtReference then
    if v.dtReference.extended then
      -- The first part is over; the rest of the time is left.
      ({ mux with
        alarms := Function.update mux.alarms i
          { v with
            dtReference :=
              { since := v.dtReference.since + v.dtReference.dt.toNat
                dt := halfMaxValue w
                extended := false } } }, false)
    else
      ({ mux with
        alarms := Function.update mux.alarms i v.disarmed
        enabled := mux.enabled - 1 }, true)
  else
    (mux, false)

def remaining (time : ℕ) (r : TickDtReference w) : BitVec w :=
  if expired time r then 0 else r.referencePlusDt - .ofNat w time

def rearm (virtualAlarms : List ι) (mux : MuxAlarm w ι) (time : ℕ) : MuxAlarm w ι :=
  let mux := { mux with firing := false }
  let armed := virtualAlarms.filter fun i => (mux.alarms i).armed
  match armed.argmin fun i =>
      (remaining time (mux.alarms i).dtReference).toNat with
  | some i =>
    let r := (mux.alarms i).dtReference
    mux.setAlarm time r.since r.dt
  | none => mux.disarm

end MuxAlarm

/-! ## Runs -/

inductive Event (ι : Type) where
  | set (i : ι) (since dt : ℕ)
  | disarm (i : ι)
  | call (i : ι) (time : ℕ)
  | interrupt (time : ℕ)

/-- Where `alarm` is: with the rest of the list to be looked at, maybe in the
callback of a client. -/
inductive Phase (ι : Type) where
  | idle
  | walking (began : ℕ) (rest : List ι)
  | calling (began : ℕ) (rest : List ι)

structure State (w : ℕ) (ι : Type) where
  time : ℕ
  mux : MuxAlarm w ι
  phase : Phase ι
  log : List (Event ι)

inductive Action (w : ℕ) (ι : Type) where
  | tick (ticks : ℕ)
  | setAlarm (i : ι) (since : ℕ) (dt : BitVec w)
  | disarm (i : ι)
  | interrupt
  | service
  | callbackReturns
  | rearm

def Phase.clientsRun : Phase ι → Bool
  | .idle => true
  | .walking _ _ => false
  | .calling _ _ => true

/-- An action, if it can happen in the state. A client may set an alarm
relative to any time that is not in the future. -/
def step (minimumDt : BitVec w) (virtualAlarms : List ι) (s : State w ι) :
    Action w ι → Option (State w ι)
  | .tick ticks => some { s with time := s.time + ticks }
  | .setAlarm i since dt =>
    if s.phase.clientsRun ∧ i ∈ virtualAlarms ∧ since ≤ s.time then
      some { s with
        mux := s.mux.setVirtual minimumDt s.time i since dt
        log := .set i since dt.toNat :: s.log }
    else none
  | .disarm i =>
    if s.phase.clientsRun ∧ i ∈ virtualAlarms then
      some { s with
        mux := s.mux.disarmVirtual i
        log := .disarm i :: s.log }
    else none
  | .interrupt =>
    match s.phase with
    | .idle => some { s with
        mux := { s.mux with
          firing := true
          hardware := s.mux.hardware.disarm }
        phase := .walking s.time virtualAlarms
        log := .interrupt s.time :: s.log }
    | _ => none
  | .service =>
    match s.phase with
    | .walking began (i :: rest) =>
      match s.mux.service s.time i with
      | (mux, true) => some { s with
          mux, phase := .calling began rest
          log := .call i s.time :: s.log }
      | (mux, false) => some { s with mux, phase := .walking began rest }
    | _ => none
  | .callbackReturns =>
    match s.phase with
    | .calling began rest => some { s with phase := .walking began rest }
    | _ => none
  | .rearm =>
    match s.phase with
    | .walking _ [] => some { s with
        mux := s.mux.rearm virtualAlarms s.time
        phase := .idle }
    | _ => none

def State.initial (w : ℕ) (ι : Type) (time : ℕ) : State w ι where
  time := time
  mux :=
    { alarms := fun _ =>
        { dtReference := { since := 0, dt := 0, extended := false }, armed := false }
      enabled := 0
      firing := false
      nextTickVals := none
      hardware := { since := 0, dt := 0, fireAt := none } }
  phase := .idle
  log := []

/-- The states of the runs in which every action is allowed. -/
inductive Run (allowed : State w ι → Action w ι → Prop)
    (minimumDt : BitVec w) (virtualAlarms : List ι) : State w ι → Prop where
  | start (time : ℕ) : Run allowed minimumDt virtualAlarms (.initial w ι time)
  | step {s s' : State w ι} {a : Action w ι}
      (run : Run allowed minimumDt virtualAlarms s) (isAllowed : allowed s a)
      (happens : step minimumDt virtualAlarms s a = some s') :
      Run allowed minimumDt virtualAlarms s'

end TockKernel.VirtualAlarm

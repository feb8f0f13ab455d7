import TockKernel.AlarmDriver.Rearm
import TockKernel.Machine
import TockKernel.VirtualAlarm.Invariant

/-!
# The timer multiplexer

A model of `capsules/core/src/virtualizers/virtual_timer.rs`. As in the model
of the alarm multiplexer, points in time are kept as times, and every
computation goes through the counter value. The count of the enabled timers is
off once a one-shot timer has fired. The underlying alarm can be late in two
other ways: a timer is started after the alarm's time has passed and before it
fires, or, with a counter wider than 32 bits, an expiration is 2^32 ticks away
when the next alarm is chosen.
-/

namespace TockKernel.TimerMux

open VirtualAlarm (withinRange withinRange_iff ofNat_sub_ofNat countP_update)
open AlarmDriver (intoU32 fromU32)
open Function Option List

variable {w : ℕ} {ι : Type} [DecidableEq ι]

inductive Mode where
  | disabled
  | oneShot
  | repeating
deriving DecidableEq

/-- `expires` is the time that the code keeps in `when`. -/
structure VirtualTimer (w : ℕ) where
  expires : ℕ
  interval : BitVec w
  mode : Mode

namespace VirtualTimer

def fireAt (timer : VirtualTimer w) : BitVec w := .ofNat w timer.expires

def isEnabled (timer : VirtualTimer w) : Bool := timer.mode != .disabled

end VirtualTimer

structure Alarm (w : ℕ) where
  since : ℕ
  dt : BitVec w
  armed : Bool

namespace Alarm

def getAlarm (alarm : Alarm w) : BitVec w := .ofNat w alarm.since + alarm.dt

def due (alarm : Alarm w) : ℕ := alarm.since + alarm.dt.toNat

def disarm (alarm : Alarm w) : Alarm w := { alarm with armed := false }

end Alarm

structure MuxTimer (w : ℕ) (ι : Type) where
  timers : ι → VirtualTimer w
  enabled : ℕ
  alarm : Alarm w

namespace MuxTimer

variable (mux : MuxTimer w ι)

def setAlarm (since : ℕ) (dt : BitVec w) : MuxTimer w ι :=
  { mux with alarm := { since, dt, armed := true } }

def setTimer (i : ι) (timer : VirtualTimer w) : MuxTimer w ι :=
  { mux with timers := Function.update mux.timers i timer }

def calculateAlarm (now : ℕ) (interval : BitVec w) : MuxTimer w ι :=
  if mux.enabled = 1 then
    mux.setAlarm now interval
  else if withinRange mux.alarm.getAlarm (.ofNat w now) (.ofNat w now + interval) then
    -- The current alarm will fire earlier.
    mux
  else
    mux.setAlarm now interval

def realInterval (minimumDt interval : BitVec w) : BitVec w :=
  fromU32 w (if intoU32 interval < intoU32 minimumDt then intoU32 minimumDt
    else intoU32 interval)

def startTimer (minimumDt : BitVec w) (mux : MuxTimer w ι) (time : ℕ) (i : ι)
    (interval : BitVec w) (mode : Mode) : MuxTimer w ι :=
  let interval := realInterval minimumDt interval
  let enabled := if (mux.timers i).mode = .disabled then mux.enabled + 1
    else mux.enabled
  let mux := { mux with enabled }.setTimer i { expires := time + interval.toNat, interval, mode }
  mux.calculateAlarm time interval

def cancel (i : ι) : MuxTimer w ι :=
  if (mux.timers i).mode = .disabled then
    mux
  else
    let enabled := mux.enabled - 1
    { mux.setTimer i { mux.timers i with mode := .disabled } with
      enabled
      alarm := if enabled = 0 then mux.alarm.disarm else mux.alarm }

/-! ## Firing -/

/-- Whether the timer is served when the alarm fires for `now`. -/
def isDue (now : ℕ) (i : ι) : Bool :=
  let timer := mux.timers i
  timer.isEnabled && !withinRange (.ofNat w now) (timer.fireAt - timer.interval) timer.fireAt

/-- `alarm` of a timer, up to the call of its client. -/
def serve (i : ι) : MuxTimer w ι :=
  let timer := mux.timers i
  match timer.mode with
  | .disabled => mux
  -- The count of the enabled timers stays as it is.
  | .oneShot => mux.setTimer i { timer with mode := .disabled }
  | .repeating =>
    (mux.setTimer i { timer with
      expires := timer.expires + timer.interval.toNat }).calculateAlarm timer.expires timer.interval

def rearm (timers : List ι) (mux : MuxTimer w ι) (now : ℕ) : MuxTimer w ι :=
  let enabled := timers.filter fun i => (mux.timers i).isEnabled
  match enabled.argmin fun i =>
      (intoU32 ((mux.timers i).fireAt - .ofNat w now)).toNat with
  | some i => mux.setAlarm now ((mux.timers i).fireAt - .ofNat w now)
  | none => { mux with alarm := mux.alarm.disarm }

end MuxTimer

/-! ## Runs -/

/-- Where `alarm` is: the alarm fired for `now`, and the rest of the list is to
be looked at, maybe once the client that was called returns. -/
inductive Phase (ι : Type) where
  | idle
  | walking (now : ℕ) (rest : List ι)
  | calling (now : ℕ) (rest : List ι)
deriving DecidableEq

structure State (w : ℕ) (ι : Type) where
  time : ℕ
  mux : MuxTimer w ι
  phase : Phase ι

inductive Action (w : ℕ) (ι : Type) where
  | tick (ticks : ℕ)
  | oneshot (i : ι) (interval : BitVec w)
  | repeating (i : ι) (interval : BitVec w)
  | cancel (i : ι)
  | alarm
  | serve
  | callbackReturns
  | rearm

def Phase.clientsRun : Phase ι → Bool
  | .idle => true
  | .walking _ _ => false
  | .calling _ _ => true

namespace State

def start (minimumDt : BitVec w) (timers : List ι) (s : State w ι) (i : ι)
    (interval : BitVec w) (mode : Mode) : Option (State w ι) :=
  if s.phase.clientsRun ∧ i ∈ timers then
    some { s with mux := s.mux.startTimer minimumDt s.time i interval mode }
  else none

/-- An action, if it can happen in the state. The underlying alarm fires only
if it is armed and its time has come. -/
def step (minimumDt : BitVec w) (timers : List ι) (s : State w ι) : Action w ι → Option (State w ι)
  | .tick ticks => some { s with time := s.time + ticks }
  | .oneshot i interval => s.start minimumDt timers i interval .oneShot
  | .repeating i interval => s.start minimumDt timers i interval .repeating
  | .cancel i =>
    if s.phase.clientsRun ∧ i ∈ timers then
      some { s with mux := s.mux.cancel i }
    else none
  | .alarm =>
    if s.phase = .idle ∧ s.mux.alarm.armed ∧ s.mux.alarm.due ≤ s.time then
      some { s with
        mux := { s.mux with alarm := s.mux.alarm.disarm }
        phase := .walking s.mux.alarm.due timers }
    else none
  | .serve =>
    match s.phase with
    | .walking now (i :: rest) =>
      if s.mux.isDue now i then
        some { s with mux := s.mux.serve i, phase := .calling now rest }
      else
        some { s with phase := .walking now rest }
    | _ => none
  | .callbackReturns =>
    match s.phase with
    | .calling now rest => some { s with phase := .walking now rest }
    | _ => none
  | .rearm =>
    match s.phase with
    | .walking now [] => some { s with
        mux := s.mux.rearm timers now
        phase := .idle }
    | _ => none

def initial (w : ℕ) (ι : Type) (time : ℕ) : State w ι where
  time := time
  mux :=
    { timers := fun _ => { expires := 0, interval := 0, mode := .disabled }
      enabled := 0
      alarm := { since := 0, dt := 0, armed := false } }
  phase := .idle

end State

def machine (minimumDt : BitVec w) (timers : List ι) : Machine (State w ι) (Action w ι) where
  Starts s := ∃ time, s = .initial w ι time
  step := State.step minimumDt timers

/-! ## The bookkeeping -/

/-- The count is right, and between firings the underlying alarm is set for a
time that is not after the expiration of an enabled timer. -/
structure Kept (timers : List ι) (s : State w ι) : Prop where
  enabled : s.mux.enabled = timers.countP fun i => (s.mux.timers i).isEnabled
  armed : s.phase = .idle → ∀ i ∈ timers, (s.mux.timers i).isEnabled →
    s.mux.alarm.armed ∧ s.mux.alarm.due ≤ (s.mux.timers i).expires

def ServeAllowed (mux : MuxTimer w ι) : Phase ι → Prop
  | .walking now (i :: _) => mux.isDue now i → (mux.timers i).mode ≠ .oneShot
  | _ => True

def RearmAllowed (timers : List ι) (mux : MuxTimer w ι) : Phase ι → Prop
  | .walking now [] => w ≤ 32 ∨ ∀ i ∈ timers,
      (mux.timers i).isEnabled → (mux.timers i).expires < now + 2 ^ 32
  | _ => True

/-- A timer that is started between firings is the only one that is enabled, or
the alarm's time has not passed. -/
def Allowed (timers : List ι) (s : State w ι) : Action w ι → Prop
  | .oneshot i _ | .repeating i _ => s.phase = .idle →
      (∃ j ∈ timers, j ≠ i ∧ (s.mux.timers j).isEnabled) → s.time ≤ s.mux.alarm.due
  | .serve => ServeAllowed s.mux s.phase
  | .rearm => RearmAllowed timers s.mux s.phase
  | .tick _ | .cancel _ | .alarm | .callbackReturns => True

section

variable {timers : List ι} {mux : MuxTimer w ι} {s : State w ι}

instance (phase : Phase ι) : Decidable (ServeAllowed mux phase) :=
  match phase with
  | .walking _ (_ :: _) => inferInstanceAs (Decidable (_ → _))
  | .walking _ [] | .idle | .calling _ _ => .isTrue trivial

instance (phase : Phase ι) : Decidable (RearmAllowed timers mux phase) :=
  match phase with
  | .walking _ [] => inferInstanceAs (Decidable (_ ∨ _))
  | .walking _ (_ :: _) | .idle | .calling _ _ => .isTrue trivial

instance (a : Action w ι) : Decidable (Allowed timers s a) :=
  match a with
  | .oneshot _ _ | .repeating _ _ => inferInstanceAs (Decidable (_ → _ → _))
  | .serve => inferInstanceAs (Decidable (ServeAllowed s.mux s.phase))
  | .rearm => inferInstanceAs (Decidable (RearmAllowed timers s.mux s.phase))
  | .tick _ | .cancel _ | .alarm | .callbackReturns => .isTrue trivial

end

/-! ## What the actions keep -/

/-- The bookkeeping, with what holds while the alarm fires: no enabled timer
expires before the time for which it fired. -/
structure Invariant (timers : List ι) (s : State w ι) : Prop extends Kept timers s where
  past : s.phase = .idle → (∃ i ∈ timers, (s.mux.timers i).isEnabled) → s.mux.alarm.since ≤ s.time
  firing : ∀ now rest, s.phase = .walking now rest ∨
    s.phase = .calling now rest → now ≤ s.time ∧ ∀ i ∈ timers,
      (s.mux.timers i).isEnabled → now ≤ (s.mux.timers i).expires
  rest : ∀ now rest, s.phase = .walking now rest ∨ s.phase = .calling now rest → rest ⊆ timers

section

variable {minimumDt : BitVec w} {timers : List ι} {s s' : State w ι}

omit [DecidableEq ι] in
theorem Invariant.initial (time : ℕ) : Invariant timers (State.initial w ι time) where
  enabled := (countP_eq_zero.mpr (by simp [State.initial, VirtualTimer.isEnabled])).symm
  armed := fun _ _ _ henabled => absurd henabled (by simp [State.initial, VirtualTimer.isEnabled])
  past := fun _ ⟨_, _, henabled⟩ => absurd henabled (by simp [State.initial,
    VirtualTimer.isEnabled])
  firing := fun _ _ hphase => by simp [State.initial] at hphase
  rest := fun _ _ hphase => by simp [State.initial] at hphase

theorem getAlarm_eq (alarm : Alarm w) : alarm.getAlarm = .ofNat w alarm.due := by
  rw [Alarm.getAlarm, Alarm.due, BitVec.ofNat_add, BitVec.ofNat_toNat, BitVec.setWidth_eq]

omit [DecidableEq ι] in
theorem calculateAlarm_cases (mux : MuxTimer w ι) (now : ℕ) (interval : BitVec w) :
    (mux.calculateAlarm now interval).timers = mux.timers ∧
    (mux.calculateAlarm now interval).enabled = mux.enabled ∧
    ((mux.calculateAlarm now interval).alarm = ⟨now, interval, true⟩ ∧
        (mux.enabled ≠ 1 → ¬ withinRange mux.alarm.getAlarm (.ofNat w now)
          (.ofNat w now + interval)) ∨ (mux.calculateAlarm now interval).alarm = mux.alarm ∧
        mux.enabled ≠ 1 ∧ withinRange mux.alarm.getAlarm (.ofNat w now)
          (.ofNat w now + interval)) := by
  unfold MuxTimer.calculateAlarm
  by_cases hone : mux.enabled = 1
  · rw [if_pos hone]
    exact ⟨rfl, rfl, .inl ⟨rfl, fun h => absurd hone h⟩⟩
  rw [if_neg hone]
  by_cases hwithin : withinRange mux.alarm.getAlarm (.ofNat w now) (.ofNat w now + interval)
  · rw [if_pos hwithin]
    exact ⟨rfl, rfl, .inr ⟨rfl, hone, hwithin⟩⟩
  · rw [if_neg hwithin]
    exact ⟨rfl, rfl, .inl ⟨rfl, fun _ => hwithin⟩⟩

variable {timer : VirtualTimer w} {i : ι} {now : ℕ}

theorem isEnabled_eq_true_iff : timer.isEnabled ↔ timer.mode ≠ .disabled := by
  rw [VirtualTimer.isEnabled, bne_iff_ne]

theorem countP_isEnabled_eq_one_iff (f : ι → VirtualTimer w)
    (hnodup : timers.Nodup) (hi : i ∈ timers) (henabled : (f i).isEnabled) :
    (timers.countP fun j => (f j).isEnabled) = 1 ↔ ¬ ∃ j ∈ timers, j ≠ i ∧ (f j).isEnabled := by
  have hothers : ((timers.erase i).countP fun j => (f j).isEnabled) = 0 ↔
      ¬ ∃ j ∈ timers, j ≠ i ∧ (f j).isEnabled := by
    rw [countP_eq_zero]
    constructor
    · rintro h ⟨j, hj, hne, hother⟩
      exact h j (hnodup.mem_erase_iff.mpr ⟨hne, hj⟩) hother
    · intro h j hj hother
      have hmem := hnodup.mem_erase_iff.mp hj
      exact h ⟨j, hmem.2, hmem.1, hother⟩
  rw [← hothers, (perm_cons_erase hi).countP_eq, countP_cons, if_pos henabled]
  omega

theorem withinRange_getAlarm_iff {alarm : Alarm w} {time : ℕ}
    {interval : BitVec w} (hpast : alarm.since ≤ time) (hdue : time ≤ alarm.due) :
    withinRange alarm.getAlarm (.ofNat w time) (.ofNat w time + interval) =
      true ↔ alarm.due < time + interval.toNat := by
  have hlt : alarm.due < time + 2 ^ w := by
    rw [Alarm.due]
    omega
  rw [getAlarm_eq]
  exact withinRange_iff hdue hlt

def started (mux : MuxTimer w ι) (i : ι) (timer : VirtualTimer w) : MuxTimer w ι :=
  { mux with
    timers := Function.update mux.timers i timer
    enabled := if (mux.timers i).mode = .disabled then mux.enabled + 1
      else mux.enabled }

section

variable {i : ι} {timer : VirtualTimer w}

theorem started_self (mux : MuxTimer w ι) : (started mux i timer).timers i = timer :=
  update_self i _ _

theorem started_of_ne (mux : MuxTimer w ι) {j : ι} (h : j ≠ i) :
    (started mux i timer).timers j = mux.timers j :=
  update_of_ne h _ _

section

variable (hnodup : timers.Nodup) (h : Invariant timers s) (hi : i ∈ timers)
  (henabled : timer.isEnabled = true)
include hnodup h hi henabled

theorem Invariant.started_enabled : (started s.mux i timer).enabled = timers.countP fun j =>
      ((started s.mux i timer).timers j).isEnabled := by
  have hupdate := countP_update VirtualTimer.isEnabled s.mux.timers hnodup hi timer
  rw [if_pos henabled, ← h.enabled] at hupdate
  change (if (s.mux.timers i).mode = .disabled then s.mux.enabled + 1
    else s.mux.enabled) = timers.countP fun j =>
      (update s.mux.timers i timer j).isEnabled
  by_cases hdisabled : (s.mux.timers i).mode = .disabled
  · rw [if_neg (mt isEnabled_eq_true_iff.mp (not_not.mpr hdisabled))] at hupdate
    rw [if_pos hdisabled]
    omega
  rw [if_pos (isEnabled_eq_true_iff.mpr hdisabled)] at hupdate
  rw [if_neg hdisabled]
  omega

theorem Invariant.started_enabled_ne_one_iff : (started s.mux i timer).enabled ≠ 1 ↔
      ∃ j ∈ timers, j ≠ i ∧ (s.mux.timers j).isEnabled := by
  rw [h.started_enabled hnodup hi henabled, ne_eq, countP_isEnabled_eq_one_iff _ hnodup hi
      (by rw [started_self]; exact henabled), not_not]
  refine exists_congr fun j => and_congr_right fun _ =>
    and_congr_right fun hne => ?_
  rw [started_of_ne s.mux hne]

end

end

section

variable (hnodup : timers.Nodup) (h : Invariant timers s) (hi : i ∈ timers)
include hnodup h hi

theorem Invariant.startTimer (interval : BitVec w) {mode : Mode} (hmode : mode ≠ .disabled)
    (hallowed : s.phase = .idle → (∃ j ∈ timers, j ≠ i ∧ (s.mux.timers j).isEnabled) →
      s.time ≤ s.mux.alarm.due) :
    Invariant timers { s with
      mux := s.mux.startTimer minimumDt s.time i interval mode } := by
  set real := MuxTimer.realInterval minimumDt interval with hreal
  set timer : VirtualTimer w :=
    { expires := s.time + real.toNat, interval := real, mode } with htimer
  have htimerEnabled : timer.isEnabled := isEnabled_eq_true_iff.mpr hmode
  have hstart : s.mux.startTimer minimumDt s.time i interval mode =
      (started s.mux i timer).calculateAlarm s.time real := rfl
  have hothers := h.started_enabled_ne_one_iff hnodup hi htimerEnabled
  obtain ⟨htimers, henabled, halarm⟩ :=
    calculateAlarm_cases (started s.mux i timer) s.time real
  rw [hstart]
  refine
    { enabled := by
        rw [htimers, henabled]
        exact h.started_enabled hnodup hi htimerEnabled
      armed := ?_, past := ?_, firing := ?_, rest := h.rest }
  · intro hidle j hj hjEnabled
    rw [htimers] at hjEnabled ⊢
    by_cases hji : j = i
    · subst hji
      rw [started_self]
      rcases halarm with ⟨hset, -⟩ | ⟨hkept, hne, hwithin⟩
      · rw [hset]
        exact ⟨rfl, le_rfl⟩
      obtain ⟨k, hk, hki, hkEnabled⟩ := hothers.mp hne
      have hpast := h.past hidle ⟨k, hk, hkEnabled⟩
      have hdue := hallowed hidle ⟨k, hk, hki, hkEnabled⟩
      rw [hkept]
      exact ⟨(h.armed hidle k hk hkEnabled).1,
        ((withinRange_getAlarm_iff hpast hdue).mp hwithin).le⟩
    · rw [started_of_ne s.mux hji] at hjEnabled ⊢
      have hbefore := h.armed hidle j hj hjEnabled
      have hpast := h.past hidle ⟨j, hj, hjEnabled⟩
      have hdue := hallowed hidle ⟨j, hj, hji, hjEnabled⟩
      rcases halarm with ⟨hset, hlater⟩ | ⟨hkept, -, -⟩
      · have hnotWithin := hlater (hothers.mpr ⟨j, hj, hji, hjEnabled⟩)
        have hle : s.time + real.toNat ≤ s.mux.alarm.due :=
          not_lt.mp (mt (withinRange_getAlarm_iff hpast hdue).mpr hnotWithin)
        rw [hset]
        exact ⟨rfl, hle.trans hbefore.2⟩
      · rw [hkept]
        exact hbefore
  · intro hidle _
    rcases halarm with ⟨hset, -⟩ | ⟨hkept, hne, -⟩
    · rw [hset]
    obtain ⟨k, hk, -, hkEnabled⟩ := hothers.mp hne
    rw [hkept]
    exact h.past hidle ⟨k, hk, hkEnabled⟩
  · intro now rest hphase
    obtain ⟨hnow, hexpires⟩ := h.firing now rest hphase
    refine ⟨hnow, fun j hj hjEnabled => ?_⟩
    rw [htimers] at hjEnabled ⊢
    by_cases hji : j = i
    · subst hji
      rw [started_self]
      exact hnow.trans (Nat.le_add_right _ _)
    · rw [started_of_ne s.mux hji] at hjEnabled ⊢
      exact hexpires j hj hjEnabled

theorem Invariant.cancel : Invariant timers { s with mux := s.mux.cancel i } := by
  by_cases hdisabled : (s.mux.timers i).mode = .disabled
  · have hsame : s.mux.cancel i = s.mux := if_pos hdisabled
    rw [hsame]
    exact h
  set timer : VirtualTimer w := { s.mux.timers i with mode := .disabled } with htimer
  have hcancel : s.mux.cancel i =
      { timers := update s.mux.timers i timer
        enabled := s.mux.enabled - 1
        alarm := if s.mux.enabled - 1 = 0 then s.mux.alarm.disarm
          else s.mux.alarm } := if_neg hdisabled
  have hcount : s.mux.enabled - 1 = timers.countP fun j =>
      (update s.mux.timers i timer j).isEnabled := by
    have hupdate := countP_update VirtualTimer.isEnabled s.mux.timers hnodup hi timer
    have hoff : ¬ timer.isEnabled := mt isEnabled_eq_true_iff.mp (not_not.mpr rfl)
    rw [if_pos (isEnabled_eq_true_iff.mpr hdisabled), if_neg hoff, ← h.enabled] at hupdate
    omega
  have hleft : ∀ j, (update s.mux.timers i timer j).isEnabled →
      update s.mux.timers i timer j = s.mux.timers j := by
    intro j hj
    by_cases hji : j = i
    · subst hji
      rw [update_self] at hj
      exact absurd rfl (isEnabled_eq_true_iff.mp hj)
    · exact update_of_ne hji _ _
  -- while a timer is enabled, the alarm stays
  have halarm : ∀ j ∈ timers, (update s.mux.timers i timer j).isEnabled →
        (if s.mux.enabled - 1 = 0 then s.mux.alarm.disarm else s.mux.alarm) = s.mux.alarm := by
    intro j hj henabled
    refine if_neg fun hzero => ?_
    rw [hcount, countP_eq_zero] at hzero
    exact hzero j hj henabled
  rw [hcancel]
  refine { enabled := hcount, armed := ?_, past := ?_, firing := ?_, rest := h.rest }
  · intro hidle j hj henabled
    dsimp only at henabled ⊢
    have hsame := hleft j henabled
    rw [halarm j hj henabled]
    rw [hsame] at henabled ⊢
    exact h.armed hidle j hj henabled
  · rintro hidle ⟨j, hj, henabled⟩
    dsimp only at henabled ⊢
    rw [halarm j hj henabled]
    rw [hleft j henabled] at henabled
    exact h.past hidle ⟨j, hj, henabled⟩
  · intro now rest hphase
    obtain ⟨hnow, hexpires⟩ := h.firing now rest hphase
    refine ⟨hnow, fun j hj henabled => ?_⟩
    dsimp only at henabled ⊢
    have hsame := hleft j henabled
    rw [hsame] at henabled ⊢
    exact hexpires j hj henabled

end

omit [DecidableEq ι] in
theorem Invariant.alarm (h : Invariant timers s) (hidle : s.phase = .idle)
    (hdue : s.mux.alarm.due ≤ s.time) :
    Invariant timers { s with
      mux := { s.mux with alarm := s.mux.alarm.disarm }
      phase := .walking s.mux.alarm.due timers } where
  enabled := h.enabled
  armed := nofun
  past := nofun
  firing := by
    rintro now rest (hphase | hphase)
    · obtain ⟨rfl, -⟩ := Phase.walking.inj hphase
      exact ⟨hdue, fun j hj henabled => (h.armed hidle j hj henabled).2⟩
    · exact absurd hphase nofun
  rest := by
    rintro now rest (hphase | hphase)
    · exact (Phase.walking.inj hphase).2 ▸ Subset.refl _
    · exact absurd hphase nofun

theorem Invariant.serve (hnodup : timers.Nodup) (h : Invariant timers s) {rest : List ι}
    (hphase : s.phase = .walking now (i :: rest)) (hmode : (s.mux.timers i).mode = .repeating) :
    Invariant timers { s with
      mux := s.mux.serve i, phase := .calling now rest } := by
  obtain ⟨hnow, hexpires⟩ := h.firing now _ (.inl hphase)
  obtain ⟨hi, hrest⟩ := cons_subset.mp (h.rest now _ (.inl hphase))
  set old := s.mux.timers i with hold
  set timer : VirtualTimer w := { old with expires := old.expires + old.interval.toNat } with htimer
  have hserve : s.mux.serve i = (s.mux.setTimer i timer).calculateAlarm
      old.expires old.interval := by
    unfold MuxTimer.serve
    dsimp only
    split
    · next hother => exact absurd (hmode.symm.trans hother) (by decide)
    · next hother => exact absurd (hmode.symm.trans hother) (by decide)
    · rfl
  have holdEnabled : old.isEnabled := isEnabled_eq_true_iff.mpr (by rw [hmode]; decide)
  have hcount : s.mux.enabled = timers.countP fun j =>
      (update s.mux.timers i timer j).isEnabled := by
    have hupdate := countP_update VirtualTimer.isEnabled s.mux.timers hnodup hi timer
    have htimerEnabled : timer.isEnabled := holdEnabled
    rw [if_pos holdEnabled, if_pos htimerEnabled, ← h.enabled] at hupdate
    omega
  obtain ⟨htimers, henabled, -⟩ :=
    calculateAlarm_cases (s.mux.setTimer i timer) old.expires old.interval
  rw [hserve]
  refine
    { enabled := by
        rw [htimers, henabled]
        exact hcount
      armed := nofun
      past := nofun
      firing := ?_
      rest := ?_ }
  · rintro now' rest' (hcalling | hcalling)
    · exact absurd hcalling nofun
    obtain ⟨rfl, -⟩ := Phase.calling.inj hcalling
    refine ⟨hnow, fun j hj hjEnabled => ?_⟩
    rw [htimers] at hjEnabled ⊢
    change (update s.mux.timers i timer j).isEnabled at hjEnabled
    change now ≤ (update s.mux.timers i timer j).expires
    by_cases hji : j = i
    · subst hji
      rw [update_self]
      exact (hexpires j hj holdEnabled).trans (Nat.le_add_right _ _)
    · rw [update_of_ne hji] at hjEnabled ⊢
      exact hexpires j hj hjEnabled
  · rintro now' rest' (hcalling | hcalling)
    · exact absurd hcalling nofun
    · exact (Phase.calling.inj hcalling).2 ▸ hrest

/-! ## The next alarm -/

def ahead (timer : VirtualTimer w) (now : ℕ) : ℕ :=
  (intoU32 (timer.fireAt - .ofNat w now)).toNat

theorem toNat_fireAt_sub (h : now ≤ timer.expires) :
    (timer.fireAt - .ofNat w now).toNat = (timer.expires - now) % 2 ^ w := by
  rw [VirtualTimer.fireAt, ofNat_sub_ofNat h, BitVec.toNat_ofNat]

theorem due_le_of_ahead_le {other : VirtualTimer w} (htimer : now ≤ timer.expires)
    (hother : now ≤ other.expires)
    (hahead : w ≤ 32 ∨ timer.expires < now + 2 ^ 32 ∧ other.expires < now + 2 ^ 32)
    (hle : ahead timer now ≤ ahead other now) :
    now + (timer.fireAt - .ofNat w now).toNat ≤ other.expires := by
  rw [ahead, ahead, intoU32, intoU32, BitVec.toNat_setWidth,
    BitVec.toNat_setWidth, toNat_fireAt_sub htimer, toNat_fireAt_sub hother]
    at hle
  rw [toNat_fireAt_sub htimer]
  by_cases hwidth : w ≤ 32
  · have hpow : 2 ^ w ≤ 2 ^ 32 := Nat.pow_le_pow_right (by decide) hwidth
    have hmod := Nat.mod_le (other.expires - now) (2 ^ w)
    omega
  have hpow : 2 ^ 32 ≤ 2 ^ w := Nat.pow_le_pow_right (by decide) (by omega)
  have hexact : (timer.expires - now) % 2 ^ w = timer.expires - now := Nat.mod_eq_of_lt (by omega)
  have hexact' : (other.expires - now) % 2 ^ w = other.expires - now := Nat.mod_eq_of_lt (by omega)
  omega

omit [DecidableEq ι] in
theorem rearm_cases (timers : List ι) (mux : MuxTimer w ι) (now : ℕ) :
    (∃ i ∈ timers, (mux.timers i).isEnabled ∧ mux.rearm timers now =
        mux.setAlarm now ((mux.timers i).fireAt - .ofNat w now) ∧
      ∀ j ∈ timers, (mux.timers j).isEnabled →
        ahead (mux.timers i) now ≤ ahead (mux.timers j) now) ∨
    ((∀ i ∈ timers, ¬ (mux.timers i).isEnabled) ∧
      mux.rearm timers now = { mux with alarm := mux.alarm.disarm }) := by
  unfold MuxTimer.rearm
  dsimp only
  split
  · next i hnext =>
      obtain ⟨hi, henabled⟩ := mem_filter.mp (argmin_mem hnext)
      refine .inl ⟨i, hi, henabled, rfl, fun j hj hjEnabled => ?_⟩
      exact le_of_mem_argmin (f := fun i => ahead (mux.timers i) now)
        (mem_filter.mpr ⟨hj, hjEnabled⟩) hnext
  next hnext =>
  refine .inr ⟨fun i hi => ?_, rfl⟩
  exact filter_eq_nil_iff.mp (argmin_eq_none.mp hnext) i hi

omit [DecidableEq ι] in
theorem Invariant.rearm (h : Invariant timers s) (hphase : s.phase = .walking now [])
    (hahead : w ≤ 32 ∨ ∀ i ∈ timers, (s.mux.timers i).isEnabled →
      (s.mux.timers i).expires < now + 2 ^ 32) :
    Invariant timers { s with
      mux := s.mux.rearm timers now, phase := .idle } := by
  obtain ⟨hnow, hexpires⟩ := h.firing now _ (.inl hphase)
  rcases rearm_cases timers s.mux now with
    ⟨i, hi, hiEnabled, hrearm, hleast⟩ | ⟨hnone, hrearm⟩
  · rw [hrearm]
    refine
      { enabled := h.enabled
        armed := fun _ j hj hjEnabled => ⟨rfl, ?_⟩
        past := fun _ _ => hnow
        firing := fun _ _ hfalse => by simp at hfalse
        rest := fun _ _ hfalse => by simp at hfalse }
    refine due_le_of_ahead_le (hexpires i hi hiEnabled)
      (hexpires j hj hjEnabled) ?_ (hleast j hj hjEnabled)
    exact hahead.imp id fun hnear =>
      ⟨hnear i hi hiEnabled, hnear j hj hjEnabled⟩
  · rw [hrearm]
    exact
      { enabled := h.enabled
        armed := fun _ j hj hjEnabled => absurd hjEnabled (hnone j hj)
        past := fun _ ⟨j, hj, hjEnabled⟩ => absurd hjEnabled (hnone j hj)
        firing := fun _ _ hfalse => by simp at hfalse
        rest := fun _ _ hfalse => by simp at hfalse }

/-! ## Runs -/

omit [DecidableEq ι] in
theorem Invariant.tick (h : Invariant timers s) (ticks : ℕ) :
    Invariant timers { s with time := s.time + ticks } :=
  { h with
    past := fun hidle henabled =>
      (h.past hidle henabled).trans (Nat.le_add_right _ _)
    firing := fun now rest hphase =>
      ⟨(h.firing now rest hphase).1.trans (Nat.le_add_right _ _), (h.firing now rest hphase).2⟩ }

omit [DecidableEq ι] in
theorem Invariant.walk (h : Invariant timers s) {rest rest' : List ι}
    (hphase : s.phase = .walking now rest ∨ s.phase = .calling now rest) (hsubset : rest' ⊆ rest) :
    Invariant timers { s with phase := .walking now rest' } := by
  refine
    { enabled := h.enabled, armed := nofun, past := nofun, firing := ?_
      rest := ?_ }
  · rintro now' tail (hwalking | hwalking)
    · obtain ⟨rfl, -⟩ := Phase.walking.inj hwalking
      exact h.firing now rest hphase
    · exact absurd hwalking nofun
  · rintro now' tail (hwalking | hwalking)
    · exact (Phase.walking.inj hwalking).2 ▸ Subset.trans hsubset (h.rest now rest hphase)
    · exact absurd hwalking nofun

theorem Invariant.start (hnodup : timers.Nodup) (h : Invariant timers s) {interval : BitVec w}
    {mode : Mode} (hmode : mode ≠ .disabled)
    (hallowed : s.phase = .idle → (∃ j ∈ timers, j ≠ i ∧ (s.mux.timers j).isEnabled) →
      s.time ≤ s.mux.alarm.due)
    (hstep : s.start minimumDt timers i interval mode = some s') : Invariant timers s' := by
  unfold State.start at hstep
  split_ifs at hstep with hguard
  exact some.inj hstep ▸ h.startTimer hnodup hguard.2 interval hmode hallowed

theorem Invariant.step (hnodup : timers.Nodup) (h : Invariant timers s)
    (a : Action w ι) (hallowed : Allowed timers s a)
    (hstep : s.step minimumDt timers a = some s') : Invariant timers s' := by
  cases a with
  | tick ticks => exact some.inj hstep ▸ h.tick ticks
  | oneshot i interval | repeating i interval => exact h.start hnodup (by decide) hallowed hstep
  | cancel i =>
    simp only [State.step] at hstep
    split_ifs at hstep with hguard
    exact some.inj hstep ▸ h.cancel hnodup hguard.2
  | alarm =>
    simp only [State.step] at hstep
    split_ifs at hstep with hguard
    exact some.inj hstep ▸ h.alarm hguard.1 hguard.2.2
  | serve =>
    simp only [State.step] at hstep
    split at hstep
    · next now i rest hphase =>
        simp only [Allowed, hphase] at hallowed
        split_ifs at hstep with hdue
        · have hmode : (s.mux.timers i).mode = .repeating := by
            have henabled : (s.mux.timers i).isEnabled := (Bool.and_eq_true_iff.mp hdue).1
            cases hkind : (s.mux.timers i).mode with
            | disabled =>
              exact absurd hkind (isEnabled_eq_true_iff.mp henabled)
            | oneShot => exact absurd hkind (hallowed hdue)
            | repeating => rfl
          exact some.inj hstep ▸ h.serve hnodup hphase hmode
        · exact some.inj hstep ▸ h.walk (.inl hphase) (subset_cons_self _ _)
    · exact absurd hstep nofun
  | callbackReturns =>
    simp only [State.step] at hstep
    split at hstep
    · next now rest hphase =>
        exact some.inj hstep ▸ h.walk (.inr hphase) (Subset.refl _)
    · exact absurd hstep nofun
  | rearm =>
    simp only [State.step] at hstep
    split at hstep
    · next now hphase =>
        simp only [Allowed, hphase] at hallowed
        exact some.inj hstep ▸ h.rearm hphase hallowed
    · exact absurd hstep nofun

/-- In allowed runs the count is right and the underlying alarm comes in time. -/
theorem timer_bookkeeping (hnodup : timers.Nodup)
    (hrun : (machine minimumDt timers).Run (Allowed timers) s) : Kept timers s := by
  have hinvariant : Invariant timers s := by
    refine hrun.invariant ?_ ?_
    · rintro s ⟨time, rfl⟩
      exact .initial time
    · intro s s' a h hallowed hstep
      exact h.step hnodup a hallowed hstep
  exact hinvariant.toKept

end

/-- Two repeating timers. The first one fires, and the alarm is set for its
next expiration. -/
theorem timer_bookkeeping_small : ∃ s : State 32 (Fin 2), (machine 0 [0, 1]).steps
        [.repeating 0 10, .repeating 1 25, .tick 12, .alarm, .serve,
          .callbackReturns, .serve, .rearm] (.initial 32 (Fin 2) 0) = some s ∧
      s.phase = .idle ∧ s.mux.alarm.due = 20 ∧ Kept [0, 1] s := by
  have hallowed : (machine (0 : BitVec 32) [(0 : Fin 2), 1]).AllowedAlong
      (Allowed [0, 1]) [.repeating 0 10, .repeating 1 25, .tick 12, .alarm,
        .serve, .callbackReturns, .serve, .rearm] (.initial 32 (Fin 2) 0) := by
    decide +kernel
  refine ⟨_, rfl, rfl, by decide, ?_⟩
  exact timer_bookkeeping (by decide) (Machine.Run.steps (.start ⟨0, rfl⟩) hallowed rfl)

/-- A one-shot timer fires, and the count stays one. A timer is started one
tick after another has expired, and the alarm is set for the later one. On a
64-bit counter the next alarm is set for an expiration 2^32 + 4 ticks away, not
for the one in ten ticks. -/
theorem timer_bookkeeping_broken : (∃ s : State 32 (Fin 2), (machine 0 [0, 1]).steps
        [.oneshot 0 10, .tick 10, .alarm, .serve, .callbackReturns, .serve,
          .rearm] (.initial 32 (Fin 2) 0) = some s ∧ s.phase = .idle ∧ s.mux.enabled = 1 ∧
      (∀ i, (s.mux.timers i).isEnabled = false) ∧ ¬ Kept [0, 1] s) ∧
    (∃ s : State 32 (Fin 2), (machine 0 [0, 1]).steps [.repeating 0 10, .tick 11, .repeating 1 100]
          (.initial 32 (Fin 2) 0) = some s ∧ s.phase = .idle ∧ (s.mux.timers 0).isEnabled ∧
      (s.mux.timers 0).expires = 10 ∧ s.mux.alarm.due = 111 ∧ ¬ Kept [0, 1] s) ∧
    ∃ s : State 64 (Fin 2), (machine 0 [1, 0]).steps
        [.repeating 0 10, .tick 15, .alarm, .serve, .serve,
          .repeating 1 0xffffffff, .callbackReturns, .rearm] (.initial 64 (Fin 2) 0) = some s ∧
      s.phase = .idle ∧ (s.mux.timers 0).isEnabled ∧
      (s.mux.timers 0).expires = 20 ∧ s.mux.alarm.due = 2 ^ 32 + 14 ∧ ¬ Kept [1, 0] s := by
  refine ⟨⟨_, rfl, rfl, rfl, by decide, ?_⟩, ⟨_, rfl, rfl, by decide, by decide, by decide, ?_⟩,
    ⟨_, rfl, rfl, by decide, by decide, by decide, ?_⟩⟩
  · intro h
    exact absurd h.enabled (by decide)
  all_goals
    intro h
    exact absurd (h.armed rfl 0 (by decide) (by decide)).2 (by decide)

end TockKernel.TimerMux

import TockKernel.VirtualAlarm.Clock

/-!
# The invariant of the alarm multiplexer

Clients set and disarm alarms from the main loop and from callbacks. Outside
of alarm handling the underlying alarm stays early enough for all armed ones.
-/

namespace TockKernel.VirtualAlarm

open Function MuxAlarm

variable {w : ℕ} {ι : Type} [DecidableEq ι]

/-! ## The invariant -/

def Phase.rest : Phase ι → List ι
  | .idle => []
  | .walking _ rest | .calling _ rest => rest

def Phase.began : Phase ι → ℕ
  | .idle => 0
  | .walking began _ | .calling began _ => began

/-- The window of a virtual alarm ends when the alarm expires, or half of the
range of the counter before. -/
structure Tracks (minimumDt : BitVec w) (time : ℕ) (r : TickDtReference w)
    (expiration : ℕ) : Prop where
  past : r.since ≤ time
  window : r.since + r.dt.toNat + (if r.extended then (halfMaxValue w).toNat else 0) = expiration
  dt_le : r.dt.toNat ≤ (halfMaxValue w).toNat + minimumDt.toNat
  minimumDt_lt : minimumDt.toNat < (halfMaxValue w).toNat

/-- The underlying alarm is due, or it was set relative to a time in the past
and fires at the end of its window. -/
structure HardwareSet (minimumDt : BitVec w) (time : ℕ) (mux : MuxAlarm w ι)
    (fireAt : ℕ) : Prop where
  next : mux.nextTickVals = some (mux.hardware.reference, mux.hardware.dt)
  past : mux.hardware.since ≤ time
  window : fireAt ≤ time ∨ fireAt = mux.hardware.since + mux.hardware.dt.toNat
  window_le : mux.hardware.since + mux.hardware.dt.toNat ≤ fireAt
  dt_le : mux.hardware.dt.toNat ≤ (halfMaxValue w).toNat + minimumDt.toNat

def InTime (virtualAlarms : List ι) (time : ℕ) (mux : MuxAlarm w ι) : Prop :=
  ∀ i ∈ virtualAlarms, (mux.alarms i).armed = true → ∃ fireAt, mux.hardware.fireAt = some fireAt ∧
      fireAt ≤ max time ((mux.alarms i).dtReference.since + (mux.alarms i).dtReference.dt.toNat)

structure Invariant (minimumDt : BitVec w) (virtualAlarms : List ι) (s : State w ι) : Prop where
  enabled : s.mux.enabled = virtualAlarms.countP fun i => (s.mux.alarms i).armed
  armed : ∀ i ∈ virtualAlarms, (s.mux.alarms i).armed = (pending s.log i).isSome
  tracks : ∀ i ∈ virtualAlarms, ∀ since dt, pending s.log i = some (since, dt) →
      Tracks minimumDt s.time (s.mux.alarms i).dtReference (since + dt)
  hardware : ∀ fireAt, s.mux.hardware.fireAt = some fireAt →
    HardwareSet minimumDt s.time s.mux fireAt
  inTime : s.phase = .idle → InTime virtualAlarms s.time s.mux
  firing : s.mux.firing = true ↔ s.phase ≠ .idle
  calls : CallsDue s.log
  missed : ∀ i ∈ virtualAlarms, ∀ since dt, pending s.log i = some (since, dt) → missed s.log i ≤
        (if (s.mux.alarms i).dtReference.extended then 0 else 1) +
          if i ∈ s.phase.rest ∧ since + dt ≤ s.phase.began then 1 else 0
  began : s.phase.began ≤ s.time
  rest : s.phase.rest.Nodup ∧ ∀ i ∈ s.phase.rest, i ∈ virtualAlarms

section

variable {minimumDt : BitVec w} {virtualAlarms : List ι} {s s' : State w ι}

theorem Invariant.initial (time : ℕ) :
    Invariant minimumDt virtualAlarms (State.initial w ι time) where
  enabled := by simp [State.initial]
  armed := fun _ _ => rfl
  tracks := fun _ _ _ _ h => nomatch h
  hardware := fun _ h => nomatch h
  inTime := fun _ _ _ h => nomatch h
  firing := by simp [State.initial]
  calls := trivial
  missed := fun _ _ _ _ h => nomatch h
  began := Nat.zero_le _
  rest := ⟨List.nodup_nil, fun _ h => nomatch h⟩

variable {time : ℕ} {mux : MuxAlarm w ι} {fireAt : ℕ} {i : ι} {since : ℕ}
  {dt : BitVec w}

theorem Tracks.mono {time' : ℕ} (htime : time ≤ time') {r : TickDtReference w}
    {expiration : ℕ} (h : Tracks minimumDt time r expiration) :
    Tracks minimumDt time' r expiration :=
  { h with past := h.past.trans htime }

omit [DecidableEq ι] in
theorem HardwareSet.mono {time' : ℕ} (htime : time ≤ time')
    (h : HardwareSet minimumDt time mux fireAt) : HardwareSet minimumDt time' mux fireAt :=
  { h with
    past := h.past.trans htime
    window := h.window.imp_left fun hdue => hdue.trans htime }

theorem Invariant.tick (h : Invariant minimumDt virtualAlarms s) (ticks : ℕ) :
    Invariant minimumDt virtualAlarms { s with time := s.time + ticks } := by
  have htime : s.time ≤ s.time + ticks := Nat.le_add_right _ _
  refine { h with
    tracks := fun i hi since dt hp => (h.tracks i hi since dt hp).mono htime
    hardware := fun fireAt hf => (h.hardware fireAt hf).mono htime
    inTime := fun hidle i hi harmed => ?_
    began := h.began.trans htime }
  obtain ⟨fireAt, hf, hle⟩ := h.inTime hidle i hi harmed
  exact ⟨fireAt, hf, hle.trans (max_le_max_right _ htime)⟩

theorem countP_update {β : Type} (p : β → Bool) (f : ι → β) {list : List ι}
    (hnodup : list.Nodup) (hi : i ∈ list) (v : β) : (list.countP fun j => p (update f i v j)) +
        (if p (f i) then 1 else 0) = (list.countP fun j => p (f j)) + if p v then 1 else 0 := by
  have hperm := List.perm_cons_erase hi
  have hrest : ((list.erase i).countP fun j => p (update f i v j)) =
      (list.erase i).countP fun j => p (f j) := by
    refine List.countP_congr fun j hj => ?_
    rw [update_of_ne (hnodup.mem_erase_iff.mp hj).1]
  rw [hperm.countP_eq, hperm.countP_eq, List.countP_cons, List.countP_cons, update_self]
  omega

/-! ## Setting an alarm -/

theorem splitDt_since (minimumDt : BitVec w) (since : ℕ) (dt : BitVec w) :
    (splitDt minimumDt since dt).since = since := by
  unfold splitDt
  split_ifs <;> rfl

theorem splitDt_tracks (hpast : since ≤ time)
    (hrecent : time + minimumDt.toNat < since + (halfMaxValue w).toNat) :
    Tracks minimumDt time (splitDt minimumDt since dt) (since + dt.toNat) := by
  have hhalf : 2 * (halfMaxValue w).toNat = 2 ^ w := two_mul_halfMaxValue (by omega)
  have hbound : (halfMaxValue w + minimumDt).toNat = (halfMaxValue w).toNat + minimumDt.toNat := by
    rw [BitVec.toNat_add, Nat.mod_eq_of_lt (by omega)]
  unfold splitDt
  split_ifs with hlong
  · rw [gt_iff_lt, BitVec.lt_def, hbound] at hlong
    have hsub : (dt - halfMaxValue w).toNat = dt.toNat - (halfMaxValue w).toNat :=
      BitVec.toNat_sub_of_le (BitVec.le_def.mpr (by omega))
    refine ⟨hpast, ?_, ?_, by omega⟩
    · simp only [if_true]
      omega
    · simp only [hsub]
      omega
  · rw [gt_iff_lt, BitVec.lt_def, hbound] at hlong
    exact ⟨hpast, by simp, by simpa using hlong, by omega⟩

/-- The virtual alarm is armed; what happens to the underlying one is said
below. -/
def armVirtual (minimumDt : BitVec w) (mux : MuxAlarm w ι) (i : ι)
    (since : ℕ) (dt : BitVec w) : MuxAlarm w ι :=
  { mux with
    alarms := Function.update mux.alarms i
      { dtReference := MuxAlarm.splitDt minimumDt since dt, armed := true }
    enabled :=
      if (mux.alarms i).armed then mux.enabled else mux.enabled + 1 }

theorem setVirtual_cases (mux : MuxAlarm w ι) (time : ℕ) (i : ι) (since : ℕ) (dt : BitVec w) :
    let r := splitDt minimumDt since dt
    let fires := withinRange mux.hardware.getAlarm r.reference r.referencePlusDt
    (mux.setVirtual minimumDt time i since dt =
        (armVirtual minimumDt mux i since dt).setAlarm time since r.dt ∧
      (mux.enabled = 0 ∨ mux.firing = false ∧ fires = false ∧ mux.notYetFired time)) ∨
    (mux.setVirtual minimumDt time i since dt = armVirtual minimumDt mux i since dt ∧
      mux.enabled ≠ 0 ∧ (mux.firing ∨ fires ∨ mux.notYetFired time = false)) := by
  intro r fires
  have hunfold : mux.setVirtual minimumDt time i since dt =
      if mux.enabled = 0 then
        (armVirtual minimumDt mux i since dt).setAlarm time since r.dt
      else if mux.firing then armVirtual minimumDt mux i since dt
      else if fires then armVirtual minimumDt mux i since dt
      else if mux.notYetFired time then
        (armVirtual minimumDt mux i since dt).setAlarm time since r.dt
      else armVirtual minimumDt mux i since dt := rfl
  rw [hunfold]
  by_cases henabled : mux.enabled = 0
  · rw [if_pos henabled]
    exact .inl ⟨rfl, .inl henabled⟩
  rw [if_neg henabled]
  cases hfiring : mux.firing with
  | true => exact .inr ⟨rfl, henabled, .inl rfl⟩
  | false =>
    cases hfires : fires with
    | true => exact .inr ⟨rfl, henabled, .inr (.inl rfl)⟩
    | false =>
      cases hnext : mux.notYetFired time with
      | true => exact .inl ⟨rfl, .inr ⟨rfl, rfl, rfl⟩⟩
      | false => exact .inr ⟨rfl, henabled, .inr (.inr rfl)⟩

omit [DecidableEq ι] in
theorem HardwareSet.within_iff (h : HardwareSet minimumDt time mux fireAt)
    (hlater : time < fireAt) {r : TickDtReference w} (hpast : r.since ≤ time)
    (hrecent : time + minimumDt.toNat < r.since + (halfMaxValue w).toNat) :
    withinRange mux.hardware.getAlarm r.reference r.referencePlusDt ↔
      fireAt < r.since + r.dt.toNat := by
  have hhalf : 2 * (halfMaxValue w).toNat = 2 ^ w := two_mul_halfMaxValue (by omega)
  have hfireAt : fireAt = mux.hardware.since + mux.hardware.dt.toNat :=
    h.window.resolve_left (by omega)
  have halarm : mux.hardware.getAlarm = BitVec.ofNat w fireAt := by
    rw [hfireAt, BitVec.ofNat_add, BitVec.ofNat_toNat, BitVec.setWidth_eq]
    rfl
  have hlt : fireAt < r.since + 2 ^ w := by
    have hdt := h.dt_le
    have hsince := h.past
    omega
  rw [halarm]
  exact withinRange_iff (by omega) hlt

omit [DecidableEq ι] in
theorem HardwareSet.notYetFired_iff (h : HardwareSet minimumDt time mux fireAt)
    (hfresh : time < mux.hardware.since + 2 ^ w) : mux.notYetFired time ↔ time < fireAt := by
  have hwithin : withinRange (.ofNat w time) mux.hardware.reference
      (mux.hardware.reference + mux.hardware.dt) ↔ _ :=
    withinRange_iff h.past hfresh
  have hwindow := h.window
  have hle := h.window_le
  unfold notYetFired
  rw [h.next]
  refine hwithin.trans ?_
  omega

theorem Invariant.exists_armed (h : Invariant minimumDt virtualAlarms s)
    (henabled : s.mux.enabled ≠ 0) : ∃ i ∈ virtualAlarms, (s.mux.alarms i).armed := by
  rw [h.enabled] at henabled
  exact List.countP_pos_iff.mp (Nat.pos_of_ne_zero henabled)

theorem setVirtual_fields (minimumDt : BitVec w) (mux : MuxAlarm w ι)
    (time : ℕ) (i : ι) (since : ℕ) (dt : BitVec w) :
    (mux.setVirtual minimumDt time i since dt).alarms =
        (armVirtual minimumDt mux i since dt).alarms ∧
      (mux.setVirtual minimumDt time i since dt).enabled =
        (armVirtual minimumDt mux i since dt).enabled ∧
      (mux.setVirtual minimumDt time i since dt).firing = mux.firing := by
  rcases setVirtual_cases mux time i since dt with ⟨hset, -⟩ | ⟨hkeep, -⟩
  · rw [hset]
    exact ⟨rfl, rfl, rfl⟩
  · rw [hkeep]
    exact ⟨rfl, rfl, rfl⟩

section

variable (h : Invariant minimumDt virtualAlarms s) (hpast : since ≤ s.time)
  (hrecent : s.time + minimumDt.toNat < since + (halfMaxValue w).toNat)
include h hpast hrecent

theorem Invariant.inTime_setVirtual (hidle : s.phase = .idle)
    (hfresh : HardwareFresh s) : InTime virtualAlarms s.time
      (s.mux.setVirtual minimumDt s.time i since dt) := by
  have hfiring : s.mux.firing = false := by
    rw [← Bool.not_eq_true, h.firing]
    exact not_not.mpr hidle
  have hsince := splitDt_since minimumDt since dt
  rcases setVirtual_cases s.mux s.time i since dt with
    ⟨hset, hwhy⟩ | ⟨hkeep, henabled, hwhy⟩
  · rw [hset]
    intro j hj harmed
    refine ⟨_, fireAt_setAlarm hpast (by omega), ?_⟩
    by_cases hsame : j = i
    · subst hsame
      simp only [armVirtual, setAlarm, update_self]
      rw [splitDt_since]
    simp only [armVirtual, setAlarm, update_of_ne hsame] at harmed ⊢
    rcases hwhy with hzero | ⟨-, hlater, hnotYet⟩
    · rw [h.enabled, List.countP_eq_zero] at hzero
      exact absurd harmed (hzero j hj)
    obtain ⟨fireAt, hfireAt, hle⟩ := h.inTime hidle j hj harmed
    have hhardware := h.hardware fireAt hfireAt
    rw [hhardware.notYetFired_iff (hfresh (by rw [hfireAt]; simp))] at hnotYet
    rw [← Bool.not_eq_true, hhardware.within_iff hnotYet (by omega) (by omega)] at hlater
    omega
  · rw [hkeep]
    obtain ⟨k, hk, hkarmed⟩ := h.exists_armed henabled
    obtain ⟨fireAt, hfireAt, -⟩ := h.inTime hidle k hk hkarmed
    have hhardware := h.hardware fireAt hfireAt
    intro j hj harmed
    refine ⟨fireAt, hfireAt, ?_⟩
    by_cases hsame : j = i
    · subst hsame
      simp only [armVirtual, update_self]
      by_cases hdue : fireAt ≤ s.time
      · exact hdue.trans (le_max_left _ _)
      rcases hwhy with hfiring' | hearlier | hfired
      · rw [hfiring] at hfiring'
        cases hfiring'
      · rw [hhardware.within_iff (by omega) (by omega) (by omega)] at hearlier
        exact hearlier.le.trans (le_max_right _ _)
      rw [← Bool.not_eq_true, hhardware.notYetFired_iff (hfresh (by rw [hfireAt]; simp))] at hfired
      omega
    · simp only [armVirtual, update_of_ne hsame] at harmed ⊢
      obtain ⟨_, hfireAt', hle⟩ := h.inTime hidle j hj harmed
      rw [hfireAt] at hfireAt'
      cases hfireAt'
      exact hle

theorem Invariant.hardware_setVirtual
    (hfireAt : (s.mux.setVirtual minimumDt s.time i since dt).hardware.fireAt = some fireAt) :
    HardwareSet minimumDt s.time (s.mux.setVirtual minimumDt s.time i since dt) fireAt := by
  rcases setVirtual_cases s.mux s.time i since dt with ⟨hset, -⟩ | ⟨hkeep, -⟩
  · rw [hset] at hfireAt ⊢
    have hwhen := (fireAt_setAlarm hpast (by omega)).symm.trans hfireAt
    cases hwhen
    exact ⟨rfl, hpast, max_choice _ _ |>.imp_left Eq.le, le_max_right _ _,
      (splitDt_tracks hpast hrecent).dt_le⟩
  rw [hkeep] at hfireAt ⊢
  obtain ⟨hnext, hsince, hwindow, hwindow_le, hdt⟩ := h.hardware fireAt hfireAt
  exact ⟨hnext, hsince, hwindow, hwindow_le, hdt⟩

/-- A set alarm keeps the invariant while the hardware alarm is fresh. -/
theorem Invariant.setAlarm (hnodup : virtualAlarms.Nodup) (hi : i ∈ virtualAlarms)
    (hfresh : HardwareFresh s) :
    Invariant minimumDt virtualAlarms { s with
      mux := s.mux.setVirtual minimumDt s.time i since dt
      log := .set i since dt.toNat :: s.log } := by
  obtain ⟨halarms, henabled, hfiring⟩ := setVirtual_fields minimumDt s.mux s.time i since dt
  refine {
    enabled := ?_
    armed := fun j hj => ?_
    tracks := fun j hj since' dt' hp => ?_
    hardware := fun fireAt hf => h.hardware_setVirtual hpast hrecent hf
    inTime := fun hidle => h.inTime_setVirtual hpast hrecent hidle hfresh
    firing := ?_
    calls := h.calls
    missed := fun j hj since' dt' hp => ?_
    began := h.began
    rest := h.rest }
  · have hcount := countP_update VirtualMuxAlarm.armed s.mux.alarms hnodup hi
      { dtReference := splitDt minimumDt since dt, armed := true }
    have hold := h.enabled
    simp only [if_true] at hcount
    simp only [halarms, henabled, armVirtual]
    split_ifs at hcount ⊢ <;> omega
  · simp only [halarms, armVirtual, pending]
    by_cases hsame : j = i
    · subst hsame
      rw [update_self, if_pos rfl]
      rfl
    · rw [update_of_ne hsame, if_neg hsame]
      exact h.armed j hj
  · simp only [halarms, armVirtual]
    by_cases hsame : j = i
    · subst hsame
      rw [pending, if_pos rfl] at hp
      cases hp
      rw [update_self]
      exact splitDt_tracks hpast hrecent
    rw [pending, if_neg hsame] at hp
    rw [update_of_ne hsame]
    exact h.tracks j hj since' dt' hp
  · simp only [hfiring]
    exact h.firing
  · simp only [halarms, armVirtual]
    by_cases hsame : j = i
    · subst hsame
      rw [VirtualAlarm.missed, if_pos rfl]
      exact Nat.zero_le _
    rw [pending, if_neg hsame] at hp
    rw [VirtualAlarm.missed, if_neg hsame, update_of_ne hsame]
    exact h.missed j hj since' dt' hp

end

/-! ## Disarming -/

section

variable (hnodup : virtualAlarms.Nodup)
  (h : Invariant minimumDt virtualAlarms s) (hi : i ∈ virtualAlarms)
include hnodup h hi

theorem Invariant.enabled_disarmed (harmed : (s.mux.alarms i).armed) :
    s.mux.enabled = (virtualAlarms.countP fun j =>
      (update s.mux.alarms i (s.mux.alarms i).disarmed j).armed) + 1 := by
  have hcount := countP_update VirtualMuxAlarm.armed s.mux.alarms hnodup hi
    (s.mux.alarms i).disarmed
  rw [h.enabled]
  simpa [harmed, VirtualMuxAlarm.disarmed] using hcount.symm

theorem Invariant.disarm :
    Invariant minimumDt virtualAlarms { s with
      mux := s.mux.disarmVirtual i
      log := .disarm i :: s.log } := by
  by_cases harmed : (s.mux.alarms i).armed
  · have hcount := h.enabled_disarmed hnodup hi harmed
    rw [disarmVirtual, if_pos harmed]
    refine {
      enabled := ?_
      armed := fun j hj => ?_
      tracks := fun j hj since dt hp => ?_
      hardware := fun fireAt hf => ?_
      inTime := fun hidle j hj hjarmed => ?_
      firing := h.firing
      calls := h.calls
      missed := fun j hj since dt hp => ?_
      began := h.began
      rest := h.rest }
    · simp only
      omega
    · simp only [pending]
      by_cases hsame : j = i
      · subst hsame
        rw [update_self, if_pos rfl]
        rfl
      · rw [update_of_ne hsame, if_neg hsame]
        exact h.armed j hj
    · obtain ⟨hsame, hp⟩ := Option.ite_none_left_eq_some.mp hp
      simp only [update_of_ne hsame]
      exact h.tracks j hj since dt hp
    · simp only at hf ⊢
      split_ifs at hf ⊢
      · cases hf
      · exact { h.hardware fireAt hf with }
    · -- Some alarm is armed, so the underlying one stays as it is.
      have hpos : 0 < virtualAlarms.countP fun j =>
          (update s.mux.alarms i (s.mux.alarms i).disarmed j).armed :=
        List.countP_pos_iff.mpr ⟨j, hj, hjarmed⟩
      have hsame : j ≠ i := by
        rintro rfl
        simp [VirtualMuxAlarm.disarmed] at hjarmed
      simp only [update_of_ne hsame] at hjarmed ⊢
      rw [if_neg (by omega)]
      exact h.inTime hidle j hj hjarmed
    · obtain ⟨hsame, hp⟩ := Option.ite_none_left_eq_some.mp hp
      simp only [update_of_ne hsame]
      exact h.missed j hj since dt hp
  · rw [disarmVirtual, if_neg harmed]
    have hnone : pending s.log i = none := by
      have hsome := h.armed i hi
      rw [Bool.not_eq_true] at harmed
      rw [harmed] at hsome
      simpa using hsome.symm
    have hpending : ∀ j, pending (.disarm i :: s.log) j = pending s.log j := by
      intro j
      rw [pending]
      split_ifs with hsame
      · rw [hsame, hnone]
      · rfl
    exact { h with
      armed := fun j hj => by
        simp only [hpending]
        exact h.armed j hj
      tracks := fun j hj since dt hp => by
        rw [hpending] at hp
        exact h.tracks j hj since dt hp
      missed := fun j hj since dt hp => by
        rw [hpending] at hp
        exact h.missed j hj since dt hp }

end

end

end TockKernel.VirtualAlarm

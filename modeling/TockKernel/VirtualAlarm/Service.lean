import TockKernel.VirtualAlarm.Invariant

/-!
# No alarm is lost and none fires early

In runs in which the counter tells time correctly, and in which references are
not too old when an alarm is set, the multiplexer serves all of its clients.
-/

namespace TockKernel.VirtualAlarm

open Function MuxAlarm List

variable {w : ℕ} {ι : Type} [DecidableEq ι]

section

variable {minimumDt : BitVec w} {virtualAlarms : List ι} {s s' : State w ι}

/-! ## Handling an interrupt -/

theorem Invariant.interrupt (hnodup : virtualAlarms.Nodup)
    (h : Invariant minimumDt virtualAlarms s) (hidle : s.phase = .idle) :
    Invariant minimumDt virtualAlarms { s with
      mux := { s.mux with firing := true, hardware := s.mux.hardware.disarm }
      phase := .walking s.time virtualAlarms
      log := .interrupt s.time :: s.log } where
  enabled := h.enabled
  armed := h.armed
  tracks := h.tracks
  hardware := fun _ hf => nomatch hf
  inTime := fun hphase => nomatch hphase
  firing := by simp
  calls := h.calls
  missed := fun i hi since dt hp => by
    have hbefore := h.missed i hi since dt hp
    simp only [hidle, Phase.rest, not_mem_nil, false_and] at hbefore
    simp only [VirtualAlarm.missed, show pending s.log i = _ from hp,
      Phase.rest, Phase.began, hi, true_and]
    by_cases hdue : since + dt ≤ s.time
    · rw [if_pos hdue, if_pos hdue]
      exact Nat.add_le_add_right hbefore 1
    · rw [if_neg hdue, if_neg hdue]
      exact hbefore
  began := le_rfl
  rest := ⟨hnodup, fun _ hi => hi⟩

theorem Invariant.callbackReturns (h : Invariant minimumDt virtualAlarms s)
    {began : ℕ} {rest : List ι} (hphase : s.phase = .calling began rest) :
    Invariant minimumDt virtualAlarms { s with phase := .walking began rest } where
  enabled := h.enabled
  armed := h.armed
  tracks := h.tracks
  hardware := h.hardware
  inTime := fun hphase => nomatch hphase
  firing := by
    have hfiring := h.firing.mpr (by rw [hphase]; exact fun hne => nomatch hne)
    simp [hfiring]
  calls := h.calls
  missed := by
    have hmissed := h.missed
    rw [hphase] at hmissed
    exact hmissed
  began := by
    have hbegan := h.began
    rw [hphase] at hbegan
    exact hbegan
  rest := by
    have hrest := h.rest
    rw [hphase] at hrest
    exact hrest

theorem Invariant.pending_of_armed (h : Invariant minimumDt virtualAlarms s)
    {i : ι} (hi : i ∈ virtualAlarms) (harmed : (s.mux.alarms i).armed) :
    ∃ since dt, pending s.log i = some (since, dt) ∧
      Tracks minimumDt s.time (s.mux.alarms i).dtReference (since + dt) := by
  rw [h.armed i hi] at harmed
  obtain ⟨⟨since, dt⟩, hp⟩ := Option.isSome_iff_exists.mp harmed
  exact ⟨since, dt, hp, h.tracks i hi since dt hp⟩

theorem service_cases (mux : MuxAlarm w ι) (time : ℕ) (i : ι) :
    let v := mux.alarms i
    (v.armed ∧ expired time v.dtReference ∧ v.dtReference.extended ∧
      mux.service time i = ({ mux with
        alarms := update mux.alarms i
          { v with
            dtReference :=
              { since := v.dtReference.since + v.dtReference.dt.toNat
                dt := halfMaxValue w
                extended := false } } }, false)) ∨
    (v.armed ∧ expired time v.dtReference ∧ v.dtReference.extended = false ∧
      mux.service time i = ({ mux with
        alarms := update mux.alarms i v.disarmed
        enabled := mux.enabled - 1 }, true)) ∨
    ((v.armed → expired time v.dtReference = false) ∧ mux.service time i = (mux, false)) := by
  intro v
  unfold service
  cases harmed : v.armed with
  | false => exact .inr (.inr ⟨(fun h => nomatch h), by simp [v, harmed]⟩)
  | true =>
    cases hexpired : expired time v.dtReference with
    | false =>
      exact .inr (.inr ⟨fun _ => rfl, by simp [v, hexpired]⟩)
    | true =>
      cases hextended : v.dtReference.extended with
      | true =>
        exact .inl ⟨rfl, rfl, rfl, by
          simp [v, harmed, hexpired, hextended]⟩
      | false =>
        exact .inr (.inl ⟨rfl, rfl, rfl, by
          simp [v, harmed, hexpired, hextended]⟩)

section

variable {began : ℕ} {i : ι} {rest : List ι}

structure Walking (virtualAlarms : List ι) (s : State w ι) (began : ℕ) (i : ι)
    (rest : List ι) : Prop where
  firing : s.mux.firing = true
  mem : i ∈ virtualAlarms
  not_mem : i ∉ rest
  rest_mem : rest.Nodup ∧ ∀ j ∈ rest, j ∈ virtualAlarms
  began_le : began ≤ s.time
  missed : ∀ j ∈ virtualAlarms, ∀ since dt, pending s.log j = some (since, dt) → missed s.log j ≤
        (if (s.mux.alarms j).dtReference.extended then 0 else 1) +
          if j ∈ i :: rest ∧ since + dt ≤ began then 1 else 0

theorem Invariant.walking (h : Invariant minimumDt virtualAlarms s)
    (hphase : s.phase = .walking began (i :: rest)) : Walking virtualAlarms s began i rest := by
  have hrest := h.rest
  have hbegan := h.began
  have hmissed := h.missed
  rw [hphase] at hrest hbegan hmissed
  obtain ⟨hnodup, hmem⟩ := hrest
  obtain ⟨hnot, hnodup⟩ := nodup_cons.mp hnodup
  exact ⟨h.firing.mpr (by rw [hphase]; exact fun hne => nomatch hne), hmem i mem_cons_self, hnot,
    ⟨hnodup, fun j hj => hmem j (mem_cons_of_mem _ hj)⟩, hbegan, hmissed⟩

theorem Walking.missed_of_ne (h : Walking virtualAlarms s began i rest)
    {j : ι} (hj : j ∈ virtualAlarms) (hne : j ≠ i) {since dt : ℕ}
    (hp : pending s.log j = some (since, dt)) :
    VirtualAlarm.missed s.log j ≤ (if (s.mux.alarms j).dtReference.extended then 0 else 1) +
        if j ∈ rest ∧ since + dt ≤ began then 1 else 0 := by
  have hmissed := h.missed j hj since dt hp
  simpa only [mem_cons, hne, false_or] using hmissed

section

variable (hnodup : virtualAlarms.Nodup) (h : Invariant minimumDt virtualAlarms s)
  (hphase : s.phase = .walking began (i :: rest))
  (hfresh : Fresh virtualAlarms s) (harmed : (s.mux.alarms i).armed = true)
  (hexpired : MuxAlarm.expired s.time (s.mux.alarms i).dtReference = true)
include hnodup h hphase hfresh harmed hexpired

theorem Invariant.service_extended (hextended : (s.mux.alarms i).dtReference.extended) :
    Invariant minimumDt virtualAlarms { s with
      mux := { s.mux with
        alarms := update s.mux.alarms i
          { s.mux.alarms i with
            dtReference :=
              { since := (s.mux.alarms i).dtReference.since +
                  (s.mux.alarms i).dtReference.dt.toNat
                dt := halfMaxValue w
                extended := false } } }
      phase := .walking began rest } := by
  have hwalking := h.walking hphase
  have hi := hwalking.mem
  refine {
    enabled := ?_
    armed := fun j hj => ?_
    tracks := fun j hj since dt hp => ?_
    hardware := fun fireAt hf => ?_
    inTime := fun hidle => nomatch hidle
    firing := by simp [hwalking.firing]
    calls := h.calls
    missed := fun j hj since dt hp => ?_
    began := hwalking.began_le
    rest := hwalking.rest_mem }
  · have hcount := countP_update VirtualMuxAlarm.armed s.mux.alarms hnodup hi
      { s.mux.alarms i with
        dtReference :=
          { since := (s.mux.alarms i).dtReference.since +
              (s.mux.alarms i).dtReference.dt.toNat
            dt := halfMaxValue w
            extended := false } }
    have hsame := Nat.add_right_cancel hcount
    rw [h.enabled]
    exact hsame.symm
  · by_cases hsame : j = i
    · subst hsame
      simp only [update_self]
      exact h.armed j hj
    · simp only [update_of_ne hsame]
      exact h.armed j hj
  · by_cases hsame : j = i
    · subst hsame
      have htracks := h.tracks j hj since dt hp
      have hwindow := htracks.window
      rw [expired_iff htracks.past (hfresh j hj harmed)] at hexpired
      rw [hextended] at hwindow
      simp only [update_self]
      exact ⟨hexpired, by simpa using hwindow, Nat.le_add_right _ _, htracks.minimumDt_lt⟩
    · simp only [update_of_ne hsame]
      exact h.tracks j hj since dt hp
  · exact { h.hardware fireAt hf with }
  · by_cases hsame : j = i
    · subst hsame
      have hmissed := hwalking.missed j hj since dt hp
      simp only [update_self]
      exact hmissed.trans ((by split_ifs <;> simp : _ ≤ 1).trans (Nat.le_add_right _ _))
    · simp only [update_of_ne hsame]
      exact hwalking.missed_of_ne hj hsame hp

theorem Invariant.service_call (hextended : (s.mux.alarms i).dtReference.extended = false) :
    Invariant minimumDt virtualAlarms { s with
      mux := { s.mux with
        alarms := update s.mux.alarms i (s.mux.alarms i).disarmed
        enabled := s.mux.enabled - 1 }
      phase := .calling began rest
      log := .call i s.time :: s.log } := by
  have hwalking := h.walking hphase
  have hi := hwalking.mem
  refine {
    enabled := ?_
    armed := fun j hj => ?_
    tracks := fun j hj since dt hp => ?_
    hardware := fun fireAt hf => ?_
    inTime := fun hidle => nomatch hidle
    firing := by simp [hwalking.firing]
    calls := ⟨?_, h.calls⟩
    missed := fun j hj since dt hp => ?_
    began := hwalking.began_le
    rest := hwalking.rest_mem }
  · have hcount := h.enabled_disarmed hnodup hi harmed
    simp only
    omega
  · simp only [pending]
    by_cases hsame : j = i
    · subst hsame
      rw [update_self, if_pos rfl]
      rfl
    · rw [update_of_ne hsame, if_neg hsame]
      exact h.armed j hj
  · obtain ⟨hsame, hp⟩ := Option.ite_none_left_eq_some.mp hp
    simp only [update_of_ne hsame]
    exact h.tracks j hj since dt hp
  · exact { h.hardware fireAt hf with }
  · obtain ⟨since, dt, hp, htracks⟩ := h.pending_of_armed hi harmed
    have hwindow := htracks.window
    rw [expired_iff htracks.past (hfresh i hi harmed)] at hexpired
    rw [hextended] at hwindow
    exact ⟨since, dt, hp, hwindow ▸ hexpired⟩
  · obtain ⟨hsame, hp⟩ := Option.ite_none_left_eq_some.mp hp
    simp only [update_of_ne hsame]
    exact hwalking.missed_of_ne hj hsame hp

end

theorem Invariant.service_skip (h : Invariant minimumDt virtualAlarms s)
    (hphase : s.phase = .walking began (i :: rest)) (hfresh : Fresh virtualAlarms s)
    (hskip : (s.mux.alarms i).armed → expired s.time (s.mux.alarms i).dtReference = false) :
    Invariant minimumDt virtualAlarms { s with phase := .walking began rest } := by
  have hwalking := h.walking hphase
  refine { h with
    inTime := fun hidle => nomatch hidle
    firing := by simp [hwalking.firing]
    missed := fun j hj since dt hp => ?_
    began := hwalking.began_le
    rest := hwalking.rest_mem }
  by_cases hsame : j = i
  · subst hsame
    -- It had not expired when the interrupt came.
    have htracks := h.tracks j hj since dt hp
    have harmed : (s.mux.alarms j).armed := by
      rw [h.armed j hj, hp]
      rfl
    have hlater := hskip harmed
    rw [← Bool.not_eq_true, expired_iff htracks.past (hfresh j hj harmed)] at hlater
    have hwindow := htracks.window
    have hbegan := hwalking.began_le
    have hmissed := hwalking.missed j hj since dt hp
    rw [if_neg (by omega : ¬ (j ∈ j :: rest ∧ since + dt ≤ began))] at hmissed
    exact hmissed.trans (Nat.le_add_right _ _)
  · exact hwalking.missed_of_ne hj hsame hp

end

omit [DecidableEq ι] in
theorem rearm_cases (mux : MuxAlarm w ι) (time : ℕ) :
    ((∀ i ∈ virtualAlarms, (mux.alarms i).armed = false) ∧ mux.rearm virtualAlarms time =
        { mux with firing := false }.disarm) ∨
    ∃ i ∈ virtualAlarms, (mux.alarms i).armed ∧ (∀ j ∈ virtualAlarms, (mux.alarms j).armed →
        (remaining time (mux.alarms i).dtReference).toNat ≤
          (remaining time (mux.alarms j).dtReference).toNat) ∧ mux.rearm virtualAlarms time =
        { mux with firing := false }.setAlarm time
          (mux.alarms i).dtReference.since (mux.alarms i).dtReference.dt := by
  unfold rearm
  simp only
  split
  · next i hnext =>
      obtain ⟨hi, harmed⟩ := mem_filter.mp (argmin_mem hnext)
      refine .inr ⟨i, hi, harmed, fun j hj hjarmed => ?_, rfl⟩
      exact le_of_mem_argmin (f := fun i =>
        (remaining time (mux.alarms i).dtReference).toNat)
        (mem_filter.mpr ⟨hj, hjarmed⟩) hnext
  next hnext =>
  refine .inl ⟨fun i hi => ?_, rfl⟩
  have hnone := filter_eq_nil_iff.mp (argmin_eq_none.mp hnext)
  simpa using hnone i hi

theorem Invariant.rearm (h : Invariant minimumDt virtualAlarms s) {began : ℕ}
    (hphase : s.phase = .walking began []) (hfresh : Fresh virtualAlarms s) :
    Invariant minimumDt virtualAlarms { s with
      mux := s.mux.rearm virtualAlarms s.time
      phase := .idle } := by
  have hmissed : ∀ i ∈ virtualAlarms, ∀ since dt,
      pending s.log i = some (since, dt) → VirtualAlarm.missed s.log i ≤
        (if (s.mux.alarms i).dtReference.extended then 0 else 1) := by
    have hmissed := h.missed
    simp only [hphase, Phase.rest, not_mem_nil, false_and] at hmissed
    exact hmissed
  rcases rearm_cases s.mux s.time with
    ⟨hnone, hrearm⟩ | ⟨i, hi, harmed, hmin, hrearm⟩
  · rw [hrearm]
    refine {
      enabled := h.enabled
      armed := h.armed
      tracks := h.tracks
      hardware := by simp [MuxAlarm.disarm, Hardware.disarm]
      inTime := fun _ j hj hjarmed => ?_
      firing := by simp [MuxAlarm.disarm]
      calls := h.calls
      missed := fun j hj since dt hp =>
        (hmissed j hj since dt hp).trans (Nat.le_add_right _ _)
      began := Nat.zero_le _
      rest := ⟨nodup_nil, by simp [Phase.rest]⟩ }
    exact absurd ((hnone j hj).symm.trans hjarmed) (by decide)
  · obtain ⟨since, dt, hp, htracks⟩ := h.pending_of_armed hi harmed
    have hfireAt : (Hardware.setAlarm s.time (s.mux.alarms i).dtReference.since
        (s.mux.alarms i).dtReference.dt).fireAt = _ :=
      fireAt_setAlarm htracks.past (hfresh i hi harmed)
    rw [hrearm]
    refine {
      enabled := h.enabled
      armed := h.armed
      tracks := h.tracks
      hardware := fun fireAt hf => ?_
      inTime := fun _ j hj hjarmed => ⟨_, hfireAt, ?_⟩
      firing := by simp [MuxAlarm.setAlarm]
      calls := h.calls
      missed := fun j hj since dt hp =>
        (hmissed j hj since dt hp).trans (Nat.le_add_right _ _)
      began := Nat.zero_le _
      rest := ⟨nodup_nil, by simp [Phase.rest]⟩ }
    · cases hfireAt.symm.trans hf
      exact ⟨rfl, htracks.past, (max_choice _ _).imp_left Eq.le, le_max_right _ _, htracks.dt_le⟩
    · obtain ⟨_, _, -, htracks'⟩ := h.pending_of_armed hj hjarmed
      have hle := hmin j hj hjarmed
      rw [remaining_eq htracks.past (hfresh i hi harmed),
        remaining_eq htracks'.past (hfresh j hj hjarmed)] at hle
      simp only [MuxAlarm.setAlarm]
      omega

/-! ## Runs -/

theorem Invariant.step (hnodup : virtualAlarms.Nodup) (h : Invariant minimumDt virtualAlarms s)
    {a : Action w ι} (htimely : Timely minimumDt virtualAlarms s a)
    (hstep : step minimumDt virtualAlarms s a = some s') :
    Invariant minimumDt virtualAlarms s' := by
  cases a with
  | tick ticks =>
    cases hstep
    exact h.tick ticks
  | setAlarm i since dt =>
    simp only [VirtualAlarm.step] at hstep
    split_ifs at hstep with hcan
    cases hstep
    exact h.setAlarm hcan.2.2 htimely.1 hnodup hcan.2.1 htimely.2
  | disarm i =>
    simp only [VirtualAlarm.step] at hstep
    split_ifs at hstep with hcan
    cases hstep
    exact h.disarm hnodup hcan.2
  | interrupt =>
    simp only [VirtualAlarm.step] at hstep
    split at hstep
    · next hphase =>
        cases hstep
        exact h.interrupt hnodup hphase
    · cases hstep
  | service =>
    simp only [VirtualAlarm.step] at hstep
    split at hstep
    · next began i rest hphase =>
        rcases service_cases s.mux s.time i with
          ⟨harmed, hexpired, hextended, hservice⟩ |
          ⟨harmed, hexpired, hextended, hservice⟩ | ⟨hskip, hservice⟩
        · rw [hservice] at hstep
          cases hstep
          exact h.service_extended hnodup hphase htimely harmed hexpired hextended
        · rw [hservice] at hstep
          cases hstep
          exact h.service_call hnodup hphase htimely harmed hexpired hextended
        rw [hservice] at hstep
        cases hstep
        exact h.service_skip hphase htimely hskip
    · cases hstep
  | callbackReturns =>
    simp only [VirtualAlarm.step] at hstep
    split at hstep
    · next hphase =>
        cases hstep
        exact h.callbackReturns hphase
    · cases hstep
  | rearm =>
    simp only [VirtualAlarm.step] at hstep
    split at hstep
    · next hphase =>
        cases hstep
        exact h.rearm hphase htimely
    · cases hstep

theorem Run.invariant (hnodup : virtualAlarms.Nodup)
    (hrun : Run (Timely minimumDt virtualAlarms) minimumDt virtualAlarms s) :
    Invariant minimumDt virtualAlarms s := by
  induction hrun with
  | start time => exact Invariant.initial time
  | step run isAllowed happens ih => exact ih.step hnodup isAllowed happens

/-- In a timely run the number of enabled alarms is the number of armed ones,
which are those that clients wait for; whenever no interrupt is being handled,
the underlying alarm is due or fires no later than each of them expires; and
clients are called once, not early, and no later than by the second interrupt
after the expiration. -/
theorem alarms_served (hnodup : virtualAlarms.Nodup)
    (hrun : Run (Timely minimumDt virtualAlarms) minimumDt virtualAlarms s) :
    s.mux.enabled = (virtualAlarms.countP fun i => (s.mux.alarms i).armed) ∧ (∀ i ∈ virtualAlarms,
      (s.mux.alarms i).armed = (pending s.log i).isSome) ∧
    (s.phase = .idle → ∀ i ∈ virtualAlarms, ∀ since dt, pending s.log i = some (since, dt) →
        missed s.log i ≤ 1 ∧ ∃ fireAt, s.mux.hardware.fireAt = some fireAt ∧
          fireAt ≤ max s.time (since + dt)) ∧ CallsDue s.log := by
  have h := hrun.invariant hnodup
  refine ⟨h.enabled, h.armed, fun hidle i hi since dt hp => ⟨?_, ?_⟩, h.calls⟩
  · have hmissed := h.missed i hi since dt hp
    simp only [hidle, Phase.rest, not_mem_nil, false_and, if_false] at hmissed
    split_ifs at hmissed <;> omega
  · have harmed : (s.mux.alarms i).armed := by
      rw [h.armed i hi, hp]
      rfl
    obtain ⟨fireAt, hfireAt, hle⟩ := h.inTime hidle i hi harmed
    have hwindow := (h.tracks i hi since dt hp).window
    exact ⟨fireAt, hfireAt, hle.trans (by omega)⟩

def after (minimumDt : BitVec w) (virtualAlarms : List ι) (s : State w ι)
    (a : Action w ι) : State w ι :=
  (step minimumDt virtualAlarms s a).getD s

variable {allowed : State w ι → Action w ι → Prop}

theorem Run.after
    (hrun : Run allowed minimumDt virtualAlarms s) (a : Action w ι) (hallowed : allowed s a) :
    Run allowed minimumDt virtualAlarms (VirtualAlarm.after minimumDt virtualAlarms s a) := by
  unfold VirtualAlarm.after
  cases hstep : VirtualAlarm.step minimumDt virtualAlarms s a with
  | none => exact hrun
  | some s' => exact hrun.step hallowed hstep

/-! ## Runs of a list of actions -/

def AllowedAlong (allowed : State w ι → Action w ι → Prop)
    (minimumDt : BitVec w) (virtualAlarms : List ι) : List (Action w ι) → State w ι → Prop
  | [], _ => True
  | a :: actions, s => allowed s a ∧ AllowedAlong allowed minimumDt
      virtualAlarms actions (after minimumDt virtualAlarms s a)

instance decidableAllowedAlong {allowed : State w ι → Action w ι → Prop}
    [∀ s a, Decidable (allowed s a)] :
    ∀ actions s, Decidable (AllowedAlong allowed minimumDt virtualAlarms actions s)
  | [], _ => .isTrue trivial
  | _ :: actions, _ =>
    @instDecidableAnd _ _ inferInstance (decidableAllowedAlong actions _)

theorem Run.foldl {actions : List (Action w ι)} (hrun : Run allowed minimumDt virtualAlarms s)
    (hallowed : AllowedAlong allowed minimumDt virtualAlarms actions s) :
    Run allowed minimumDt virtualAlarms
      (actions.foldl (VirtualAlarm.after minimumDt virtualAlarms) s) := by
  induction actions generalizing s with
  | nil => exact hrun
  | cons a actions ih => exact ih (hrun.after a hallowed.1) hallowed.2

instance (a : Action w ι) : Decidable (Timely minimumDt virtualAlarms s a) :=
  match a with
  | .setAlarm _ _ _ => inferInstanceAs (Decidable (_ ∧ (_ → _)))
  | .service | .rearm =>
    inferInstanceAs (Decidable (∀ _ ∈ virtualAlarms, _ → _))
  | .tick _ | .disarm _ | .interrupt | .callbackReturns => .isTrue trivial

/-- The interrupt is handled less than a wrap after the underlying alarm has
fired. -/
def Serviced (s : State w ι) (_ : Action w ι) : Prop :=
  ∀ fireAt ∈ s.mux.hardware.fireAt, s.time < fireAt + 2 ^ w

instance (a : Action w ι) : Decidable (Serviced s a) :=
  inferInstanceAs (Decidable (∀ fireAt ∈ s.mux.hardware.fireAt, _))

end

theorem alarms_served_small :
    let s := [.tick 5, .setAlarm 0 5 10, .setAlarm 1 4 0xFFF0, .tick 12,
      .interrupt, .service, .setAlarm 0 17 100, .callbackReturns, .service,
      .rearm].foldl (after 0 [0, 1]) (State.initial 16 (Fin 2) 0)
    s.log = [.set 0 17 100, .call 0 17, .interrupt 17, .set 1 4 0xFFF0, .set 0 5 10] ∧
    s.mux.enabled = 2 ∧
    ∃ fireAt, s.mux.hardware.fireAt = some fireAt ∧ fireAt ≤ max 17 117 := by
  intro s
  have hrun : Run (Timely 0 [0, 1]) 0 [0, 1] s := (Run.start 0).foldl (by decide)
  have h := alarms_served (by decide) hrun
  exact ⟨rfl, h.1, (h.2.2.1 rfl 0 (by decide) 17 100 rfl).2⟩

/-- A 32-bit counter. In the first run the second alarm has long expired when
it is set, and the underlying alarm stays set for 2^31 ticks later. In the
second run the interrupt is handled almost a wrap after it was raised, and the
client is not called. -/
theorem alarm_too_late : (∃ s : State 32 (Fin 2), Run Serviced 0 [0, 1] s ∧ s.phase = .idle ∧
      s.time = 2 ^ 31 ∧ pending s.log 1 = some (0, 100) ∧ s.mux.hardware.fireAt = some (2 ^ 32)) ∧
    ∃ s : State 32 (Fin 2), Run Serviced 0 [0, 1] s ∧ s.phase = .idle ∧
      s.time = 2 ^ 32 ∧ pending s.log 0 = some (0, 100) ∧
      s.mux.hardware.fireAt = some (2 ^ 32 + 100) := by
  constructor
  · refine ⟨[.tick (2 ^ 31), .setAlarm 0 (2 ^ 31) (2 ^ 31),
      .setAlarm 1 0 100].foldl (after 0 [0, 1]) (.initial 32 (Fin 2) 0),
      (Run.start 0).foldl (by decide +kernel), rfl, ?_, ?_, ?_⟩
    all_goals decide
  · refine ⟨[.setAlarm 0 0 100, .tick (2 ^ 32), .interrupt, .service, .service,
      .rearm].foldl (after 0 [0, 1]) (.initial 32 (Fin 2) 0),
      (Run.start 0).foldl (by decide +kernel), rfl, ?_, ?_, ?_⟩
    all_goals decide

end TockKernel.VirtualAlarm

import TockKernel.VirtualAlarm.Model

/-!
# Time and the counter

What a client can expect, in terms of the log of a run, and what the counter
says about time. It tells time correctly as long as less than a wrap has
passed since the reference that it is compared with.
-/

namespace TockKernel.VirtualAlarm

open BitVec (add_comm ofNat ofNat_add toNat_ofNat)

variable {w : ℕ} {ι : Type} [DecidableEq ι]

/-- The alarm that a client waits for: it has been set, and since then neither
called, disarmed nor set again. -/
def pending : List (Event ι) → ι → Option (ℕ × ℕ)
  | [], _ => none
  | .set j since dt :: log, i =>
    if i = j then some (since, dt) else pending log i
  | .disarm j :: log, i | .call j _ :: log, i =>
    if i = j then none else pending log i
  | .interrupt _ :: log, i => pending log i

/-- How many interrupts have come after the alarm that a client waits for had
expired. -/
def missed : List (Event ι) → ι → ℕ
  | [], _ => 0
  | .set j _ _ :: log, i => if i = j then 0 else missed log i
  | .disarm _ :: log, i | .call _ _ :: log, i => missed log i
  | .interrupt time :: log, i =>
    match pending log i with
    | some (since, dt) =>
      if since + dt ≤ time then missed log i + 1 else missed log i
    | none => missed log i

/-- A client is called only while it waits for an alarm, and not before the
alarm has expired. -/
def CallsDue : List (Event ι) → Prop
  | [] => True
  | .call i time :: log =>
    (∃ since dt, pending log i = some (since, dt) ∧ since + dt ≤ time) ∧ CallsDue log
  | .set _ _ _ :: log | .disarm _ :: log | .interrupt _ :: log => CallsDue log

def Fresh (virtualAlarms : List ι) (s : State w ι) : Prop :=
  ∀ i ∈ virtualAlarms, (s.mux.alarms i).armed = true →
    s.time < (s.mux.alarms i).dtReference.since + 2 ^ w

def HardwareFresh (s : State w ι) : Prop :=
  s.mux.hardware.fireAt ≠ none → s.time < s.mux.hardware.since + 2 ^ w

def Timely (minimumDt : BitVec w) (virtualAlarms : List ι) (s : State w ι) : Action w ι → Prop
  | .setAlarm _ since _ =>
    s.time + minimumDt.toNat < since + (halfMaxValue w).toNat ∧ HardwareFresh s
  | .service | .rearm => Fresh virtualAlarms s
  | .tick _ | .disarm _ | .interrupt | .callbackReturns => True

/-! ## Counter values -/

theorem two_mul_halfMaxValue (h : 0 < (halfMaxValue w).toNat) :
    2 * (halfMaxValue w).toNat = 2 ^ w := by
  match w with
  | 0 => exact absurd h (by decide)
  | 1 => decide
  | w + 2 =>
    have hpow : 2 ^ (w + 2) = 4 * 2 ^ w := by ring
    have hone : (1 : BitVec (w + 2)).toNat = 1 := BitVec.toNat_one (by omega)
    have htwo : (2 : BitVec (w + 2)).toNat = 2 := by
      change 2 % 2 ^ (w + 2) = 2
      exact Nat.mod_eq_of_lt (by omega)
    rw [halfMaxValue, BitVec.toNat_add, BitVec.toNat_udiv,
      BitVec.toNat_allOnes, hone, htwo, Nat.mod_eq_of_lt (by omega)]
    omega

variable {since time : ℕ} {dt : BitVec w}

section

variable (h : since ≤ time)
include h

theorem ofNat_sub_ofNat : ofNat w time - ofNat w since = .ofNat w (time - since) := by
  obtain ⟨-, rfl⟩ := Nat.exists_eq_add_of_le h
  rw [ofNat_add, Nat.add_sub_cancel_left, add_comm, BitVec.add_sub_cancel]

theorem withinRange_iff (hfresh : time < since + 2 ^ w) :
    withinRange (.ofNat w time) (.ofNat w since) (.ofNat w since + dt) ↔
      time < since + dt.toNat := by
  unfold withinRange
  rw [decide_eq_true_iff, ofNat_sub_ofNat h, BitVec.lt_def, toNat_ofNat,
    Nat.mod_eq_of_lt (by omega), add_comm, BitVec.add_sub_cancel]
  omega

theorem remaining_ticks (hlt : time < since + dt.toNat) :
    (ofNat w since + dt - ofNat w time).toNat = since + dt.toNat - time := by
  have hofNat : ofNat w since + dt = ofNat w (since + dt.toNat) := by
    rw [ofNat_add, BitVec.ofNat_toNat, BitVec.setWidth_eq]
  rw [hofNat, ofNat_sub_ofNat hlt.le, toNat_ofNat, Nat.mod_eq_of_lt (by omega)]

theorem fireAt_setAlarm (hfresh : time < since + 2 ^ w) :
    (Hardware.setAlarm time since dt).fireAt = some (max time (since + dt.toNat)) := by
  simp only [Hardware.setAlarm]
  by_cases hlt : time < since + dt.toNat
  · rw [if_pos ((withinRange_iff h hfresh).mpr hlt), remaining_ticks h hlt]
    congr 1
    omega
  rw [if_neg (mt (withinRange_iff h hfresh).mp hlt)]
  congr 1
  omega

end

section

variable {r : TickDtReference w} (h : r.since ≤ time) (hfresh : time < r.since + 2 ^ w)
include h hfresh

theorem expired_iff : MuxAlarm.expired time r ↔ r.since + r.dt.toNat ≤ time := by
  have hwithin : withinRange (.ofNat w time) r.reference r.referencePlusDt =
      true ↔ time < r.since + r.dt.toNat := withinRange_iff h hfresh
  rw [MuxAlarm.expired, Bool.not_eq_true', ← Bool.not_eq_true, hwithin]
  omega

theorem remaining_eq : (MuxAlarm.remaining time r).toNat = r.since + r.dt.toNat - time := by
  unfold MuxAlarm.remaining
  by_cases hexpired : r.since + r.dt.toNat ≤ time
  · rw [if_pos ((expired_iff h hfresh).mpr hexpired), Nat.sub_eq_zero_of_le hexpired]
    exact BitVec.toNat_zero
  · rw [if_neg (mt (expired_iff h hfresh).mp hexpired)]
    exact remaining_ticks h (by omega)

end

end TockKernel.VirtualAlarm

import Mathlib.Tactic

/-!
# Runs of a machine

A machine makes an action only in the states in which it is possible. A run is
restricted to actions that are allowed, and what every allowed action keeps
holds in every state of every run.
-/

namespace TockKernel

structure Machine (σ α : Type) where
  Starts : σ → Prop
  step : σ → α → Option σ

namespace Machine

variable {σ α : Type} {M : Machine σ α} {allowed : σ → α → Prop} {s s' : σ}

/-- The states of the runs in which every action is allowed. -/
inductive Run (M : Machine σ α) (allowed : σ → α → Prop) : σ → Prop where
  | start {s : σ} (starts : M.Starts s) : Run M allowed s
  | step {s s' : σ} {a : α} (run : Run M allowed s) (isAllowed : allowed s a)
      (happens : M.step s a = some s') : Run M allowed s'

theorem Run.invariant {P : σ → Prop} (h : M.Run allowed s) (hstart : ∀ s, M.Starts s → P s)
    (hstep : ∀ s s' a, P s → allowed s a → M.step s a = some s' → P s') : P s := by
  induction h with
  | start hstarts => exact hstart _ hstarts
  | step _ hallowed hhappens ih => exact hstep _ _ _ ih hallowed hhappens

/-! ## Lists of actions -/

def steps (M : Machine σ α) : List α → σ → Option σ
  | [], s => some s
  | a :: actions, s => (M.step s a).bind (M.steps actions)

def AllowedAlong (M : Machine σ α) (allowed : σ → α → Prop) : List α → σ → Prop
  | [], _ => True
  | a :: actions, s => allowed s a ∧ ∀ s' ∈ M.step s a, M.AllowedAlong allowed actions s'

instance decidableAllowedAlong [∀ s a, Decidable (allowed s a)] :
    ∀ actions s, Decidable (M.AllowedAlong allowed actions s)
  | [], _ => .isTrue trivial
  | a :: actions, s =>
    have : ∀ s', Decidable (M.AllowedAlong allowed actions s') := decidableAllowedAlong actions
    inferInstanceAs (Decidable (allowed s a ∧ ∀ s' ∈ M.step s a, _))

theorem Run.steps {actions : List α} (h : M.Run allowed s)
    (hallowed : M.AllowedAlong allowed actions s)
    (hsteps : M.steps actions s = some s') : M.Run allowed s' := by
  induction actions generalizing s with
  | nil => exact Option.some.inj hsteps ▸ h
  | cons a actions ih =>
    obtain ⟨next, hnext, hrest⟩ := Option.bind_eq_some_iff.mp hsteps
    exact ih (h.step hallowed.1 hnext) (hallowed.2 next hnext) hrest

end Machine

end TockKernel

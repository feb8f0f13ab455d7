import Mathlib.Tactic

/-!
# Stateful computations that can fail

Weakest preconditions for computations that pass a state on or stop with an
error: `Outcome m post fail s` says that `m`, started in `s`, either ends in a
result and a state with `post`, or stops with an error that `fail` allows. The
rules take a computation apart at its binds.
-/

section

variable {σ ε α β : Type}

def Outcome (m : StateT σ (Except ε) α) (post : α → σ → Prop) (fail : ε → Prop) (s : σ) : Prop :=
  match m s with
  | .ok (a, s') => post a s'
  | .error e => fail e

namespace Outcome

variable {m : StateT σ (Except ε) α} {f : α → StateT σ (Except ε) β}
  {post post' : α → σ → Prop} {postBind : β → σ → Prop}
  {fail : ε → Prop} {s s' : σ} {a : α}

theorem pure (h : post a s) : Outcome (Pure.pure a : StateT σ (Except ε) α) post fail s := h

theorem modify {post : Unit → σ → Prop} {g : σ → σ} (h : post () (g s)) :
    Outcome (modify g : StateT σ (Except ε) Unit) post fail s :=
  h

theorem mono (h : Outcome m post fail s)
    (hpost : ∀ a s', post a s' → post' a s') : Outcome m post' fail s := by
  unfold Outcome at *
  cases hrun : m s with
  | error e =>
    rw [hrun] at h
    exact h
  | ok r =>
    rw [hrun] at h
    exact hpost r.1 r.2 h

theorem bind (h : Outcome m (fun a s' => Outcome (f a) postBind fail s') fail s) :
    Outcome (m >>= f) postBind fail s := by
  unfold Outcome at *
  show match (m s >>= fun r => f r.1 r.2) with
    | .ok (a, s') => postBind a s'
    | .error e => fail e
  cases hrun : m s with
  | error e | ok r =>
    rw [hrun] at h
    exact h

theorem seq (h : Outcome m post fail s) (hf : ∀ a s', post a s' → Outcome (f a) postBind fail s') :
    Outcome (m >>= f) postBind fail s :=
  bind (h.mono hf)

theorem iff_of_ok (hrun : m s = .ok (a, s')) : Outcome m post fail s ↔ post a s' := by
  unfold Outcome
  rw [hrun]

theorem exists_ok (h : Outcome m post (fun _ => False) s) :
    ∃ a s', m s = .ok (a, s') ∧ post a s' := by
  unfold Outcome at h
  cases hrun : m s with
  | error e =>
    rw [hrun] at h
    exact h.elim
  | ok r =>
    rw [hrun] at h
    exact ⟨r.1, r.2, rfl, h⟩

end Outcome

end

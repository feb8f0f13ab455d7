import TockKernel.Machine

/-!
# Deferred calls

A model of `kernel/src/deferred_call.rs`. Once the setup is verified, the bits of
the mask are the calls that wait, and each service runs the handler of one of
them. `is_pending` compares the bit of a call with 1, which is the bit of none.
-/

namespace TockKernel.DeferredCall

open Function
open BitVec hiding not_or not_not

/-- The three statics, with a type for the handlers of clients. -/
structure Statics (η : Type) where
  ctr : ℕ
  bitmask : BitVec 32
  defcalls : ℕ → Option η

namespace Statics

variable {η : Type} (s : Statics η)

def new : Statics η :=
  { s with ctr := s.ctr + 1 }

def register (idx : ℕ) (handler : η) : Statics η :=
  if idx ≥ 32 then s else { s with defcalls := update s.defcalls idx (some handler) }

/-- An index above 31 does not pass `verify_setup`. -/
def set (idx : ℕ) : Statics η :=
  { s with bitmask := s.bitmask ||| 1#32 <<< idx }

def isPending (idx : ℕ) : Bool :=
  s.bitmask &&& 1#32 <<< idx == 1#32

/-- The index that is returned and the handler that is called, if any, and the
statics when it is called. -/
def serviceNextPending : Option (ℕ × η) × Statics η :=
  if s.bitmask = 0#32 then
    (none, s)
  else
    let bit := s.bitmask.ctz.toNat
    ((s.defcalls bit).map (bit, ·), { s with bitmask := s.bitmask &&& ~~~(1#32 <<< bit) })

def hasTasks : Bool :=
  s.bitmask != 0#32

def verifySetup : Bool :=
  ¬ (s.ctr ≥ 32 ∨ {idx ∈ Finset.range 32 | (s.defcalls idx).isSome}.card ≠ s.ctr)

def Created (idx : ℕ) : Prop :=
  1 ≤ idx ∧ idx ≤ s.ctr

instance (idx : ℕ) : Decidable (s.Created idx) :=
  inferInstanceAs (Decidable (_ ∧ _))

end Statics

/-- The statics, and the calls that were set after their last service began. -/
structure System (η : Type) where
  statics : Statics η
  waiting : ℕ → Bool

inductive Action (η : Type) where
  | new
  | register (idx : ℕ) (handler : η)
  | set (idx : ℕ)
  | service

variable {η : Type}

def System.service (s : System η) : System η :=
  match s.statics.serviceNextPending with
  | (none, statics) => { s with statics := statics }
  | (some call, statics) => ⟨statics, update s.waiting call.1 false⟩

def machine (η : Type) : Machine (System η) (Action η) where
  Starts s := s = ⟨⟨0, 0, fun _ => none⟩, fun _ => false⟩
  step s
    | .new => some { s with statics := s.statics.new }
    | .register idx handler =>
      if s.statics.Created idx then
        some { s with statics := s.statics.register idx handler }
      else
        none
    | .set idx =>
      if s.statics.Created idx then
        some { s with statics := s.statics.set idx, waiting := update s.waiting idx true }
      else
        none
    | .service => some s.service

/-- Calls are serviced once the setup is verified. -/
def Verified (s : System η) (action : Action η) : Prop :=
  action matches .service → s.statics.verifySetup

structure Invariant (s : System η) : Prop where
  bit : ∀ idx < 32, s.statics.bitmask.getLsbD idx = s.waiting idx
  waiting : ∀ idx, s.waiting idx = true → s.statics.Created idx
  registered : ∀ idx, (s.statics.defcalls idx).isSome → s.statics.Created idx

variable {s : System η} {idx : ℕ}

theorem getLsbD_one_shiftLeft (hidx : idx < 32) (bit : ℕ) :
    (1#32 <<< bit).getLsbD idx = decide (bit = idx) := by
  rw [← twoPow_eq, getLsbD_twoPow]
  by_cases hsame : bit = idx <;> simp [hsame, hidx]

section

variable (h : Invariant s) (hverified : s.statics.verifySetup)
include h hverified

/-- As many calls are registered as were created, and only those that were. -/
theorem Invariant.verified : s.statics.ctr < 32 ∧
    ∀ idx, s.statics.Created idx → (s.statics.defcalls idx).isSome := by
  simp only [Statics.verifySetup, decide_eq_true_eq, not_or, not_not] at hverified
  obtain ⟨hctr, hcard⟩ := hverified
  have hsubset : {idx ∈ Finset.range 32 | (s.statics.defcalls idx).isSome} ⊆
      Finset.Icc 1 s.statics.ctr := fun idx hmem =>
    Finset.mem_Icc.mpr (h.registered idx (Finset.mem_filter.mp hmem).2)
  have hall := Finset.eq_of_subset_of_card_le hsubset (by simp [hcard])
  refine ⟨by omega, fun idx hidx => ?_⟩
  have hmem := Finset.mem_Icc.mpr hidx
  rw [← hall] at hmem
  exact (Finset.mem_filter.mp hmem).2

theorem Invariant.service_cases : ((∀ idx, s.waiting idx = false) ∧ s.statics.hasTasks = false ∧
      s.statics.serviceNextPending = (none, s.statics)) ∨
    ∃ idx handler, s.waiting idx ∧ s.statics.defcalls idx = some handler ∧
      s.statics.hasTasks ∧ s.statics.serviceNextPending = (some (idx, handler),
        { s.statics with bitmask := s.statics.bitmask &&& ~~~(1#32 <<< idx) }) := by
  obtain ⟨hctr, hregistered⟩ := h.verified hverified
  unfold Statics.serviceNextPending Statics.hasTasks
  by_cases hmask : s.statics.bitmask = 0#32
  · refine .inl ⟨fun idx => ?_, by simp [hmask], if_pos hmask⟩
    by_contra hwaiting
    have hcreated := h.waiting idx (Bool.not_eq_false _ ▸ hwaiting)
    have hbit := h.bit idx (by have := hcreated.2; omega)
    exact hwaiting (by simpa [hmask] using hbit.symm)
  have hbit := getLsbD_true_ctz_of_ne_zero hmask
  have hwaiting := h.bit _ (lt_of_getLsbD hbit) ▸ hbit
  obtain ⟨handler, hhandler⟩ := Option.isSome_iff_exists.mp (hregistered _ (h.waiting _ hwaiting))
  exact .inr ⟨_, handler, hwaiting, hhandler, by simpa using hmask, by simp [hmask, hhandler]⟩

theorem Invariant.service : Invariant s.service := by
  unfold System.service
  obtain ⟨-, -, hnone⟩ | ⟨idx, handler, -, -, -, hsome⟩ := h.service_cases hverified
  · rw [hnone]
    exact h
  rw [hsome]
  refine ⟨fun other hother => ?_, fun other hset => h.waiting other ?_, h.registered⟩
  · simp only [getLsbD_and, getLsbD_not, getLsbD_one_shiftLeft hother, h.bit other hother, hother]
    by_cases hsame : idx = other
    · simp [hsame]
    · simp [hsame, Ne.symm hsame]
  · by_cases hsame : other = idx
    · simp [hsame] at hset
    · simpa [hsame] using hset

end

theorem Invariant.run (h : (machine η).Run Verified s) : Invariant s := by
  refine h.invariant ?_ ?_
  · rintro s rfl
    exact ⟨by simp, nofun, nofun⟩
  intro s s' action hs hverified hstep
  cases action with
  | new =>
    cases hstep
    exact ⟨hs.bit, fun idx hidx => (hs.waiting idx hidx).imp_right Nat.le_succ_of_le,
      fun idx hidx => (hs.registered idx hidx).imp_right Nat.le_succ_of_le⟩
  | register idx handler =>
    obtain ⟨hidx, hs'⟩ := Option.ite_none_right_eq_some.mp hstep
    cases hs'
    unfold Statics.register
    split
    · exact hs
    refine ⟨hs.bit, hs.waiting, fun other hother => ?_⟩
    by_cases hsame : other = idx
    · exact hsame ▸ hidx
    · exact hs.registered other (by simpa [hsame] using hother)
  | set idx =>
    obtain ⟨hidx, hs'⟩ := Option.ite_none_right_eq_some.mp hstep
    cases hs'
    refine ⟨fun other hother => ?_, fun other hset => ?_, hs.registered⟩
    · simp only [Statics.set, getLsbD_or, getLsbD_one_shiftLeft hother, hs.bit other hother]
      by_cases hsame : idx = other
      · simp [hsame]
      · simp [hsame, Ne.symm hsame]
    · by_cases hsame : other = idx
      · exact hsame ▸ hidx
      · exact hs.waiting other (by simpa [hsame] using hset)
  | service => exact Option.some.inj hstep ▸ hs.service (hverified rfl)

theorem isPending_eq_false (s : Statics η) (hidx : 1 ≤ idx) : s.isPending idx = false := by
  rw [Statics.isPending, beq_eq_false_iff_ne]
  intro heq
  have hbit := congrArg (getLsbD · 0) heq
  simp [Nat.ne_of_gt hidx] at hbit

/-- While the setup passes, `has_tasks` says whether calls wait, a service calls
the handler of one that does, and `is_pending` is right exactly for the calls
that do not wait. -/
theorem deferred_calls_served {s : System η} (h : (machine η).Run Verified s)
    (hverified : s.statics.verifySetup) :
    (((∀ idx, s.waiting idx = false) ∧ s.statics.hasTasks = false ∧ s.service = s) ∨
      ∃ idx handler, s.waiting idx ∧ s.statics.defcalls idx = some handler ∧
        s.statics.hasTasks ∧ s.statics.serviceNextPending.1 = some (idx, handler) ∧
        s.service.waiting = update s.waiting idx false) ∧ ∀ idx, s.statics.Created idx →
      ((s.statics.isPending idx ↔ s.waiting idx) ↔ s.waiting idx = false) := by
  refine ⟨?_, fun idx hidx => by simp [isPending_eq_false s.statics hidx.1]⟩
  unfold System.service
  obtain ⟨hidle, htasks, hnone⟩ | ⟨idx, handler, hwaiting, hhandler, htasks, hsome⟩ :=
    (Invariant.run h).service_cases hverified
  · rw [hnone]
    exact .inl ⟨hidle, htasks, rfl⟩
  · rw [hsome]
    exact .inr ⟨idx, handler, hwaiting, hhandler, htasks, rfl, rfl⟩

def sampleSystem : System Unit :=
  ⟨((⟨0, 0, fun _ => none⟩ : Statics Unit).new.register 1 ()).set 1, update (fun _ => false) 1 true⟩

theorem sampleSystem_run : (machine Unit).Run Verified sampleSystem :=
  have hnew : (machine Unit).Run Verified ⟨⟨1, 0, fun _ => none⟩, fun _ => false⟩ :=
    .step (a := .new) (.start rfl) nofun rfl
  (hnew.step (a := .register 1 ()) nofun rfl).step (a := .set 1) nofun rfl

theorem deferred_calls_served_sample : sampleSystem.statics.verifySetup ∧
    ((sampleSystem.statics.isPending 1 ↔ sampleSystem.waiting 1) ↔
      sampleSystem.waiting 1 = false) :=
  ⟨by decide, (deferred_calls_served sampleSystem_run (by decide)).2 1 (by decide)⟩

/-- `is_pending` compares the bit of the call with 1, which is the bit of index 0. -/
theorem set_call_not_pending : (machine Unit).Run Verified sampleSystem ∧
    sampleSystem.statics.verifySetup ∧ sampleSystem.waiting 1 ∧
    sampleSystem.statics.isPending 1 = false :=
  ⟨sampleSystem_run, by decide, rfl, by decide⟩

/-- If handlers set no calls, there are tasks for as many services as calls wait, and then
none. -/
theorem services_drain {n : ℕ} (h : (machine η).Run Verified s) (hverified : s.statics.verifySetup)
    (hn : {idx ∈ Finset.range 32 | s.waiting idx}.card = n) :
    (∀ k < n, (System.service^[k] s).statics.hasTasks) ∧
      (System.service^[n] s).statics.hasTasks = false ∧
      ∀ idx, (System.service^[n] s).waiting idx = false := by
  induction n generalizing s with
  | zero =>
    obtain ⟨hidle, htasks, -⟩ | ⟨idx, _, hwaiting, -⟩ := (Invariant.run h).service_cases hverified
    · exact ⟨nofun, htasks, hidle⟩
    · have hidx := ((Invariant.run h).waiting idx hwaiting).2
      have hctr := ((Invariant.run h).verified hverified).1
      exact absurd hwaiting (Finset.card_filter_eq_zero_iff.mp hn idx (by simp; omega))
  | succ n ih =>
    have hs := Invariant.run h
    obtain ⟨hidle, -⟩ | ⟨idx, _, hwaiting, -, htasks, hsome⟩ := hs.service_cases hverified
    · simp [hidle] at hn
    have hidx := (hs.waiting idx hwaiting).2.trans_lt (hs.verified hverified).1
    have hnext : {other ∈ Finset.range 32 | s.service.waiting other} =
        {other ∈ Finset.range 32 | s.waiting other}.erase idx := by
      ext other
      by_cases hsame : other = idx <;> simp [System.service, hsome, hsame]
    have hsetup : s.service.statics.verifySetup := by
      rw [System.service, hsome]
      exact hverified
    obtain ⟨hbusy, hrest⟩ := ih (h.step (a := .service) (fun _ => hverified) rfl) hsetup (by
      rw [hnext, Finset.card_erase_of_mem (by simp [hwaiting, hidx]), hn, Nat.add_sub_cancel])
    refine ⟨fun k hk => ?_, hrest⟩
    cases k with
    | zero => exact htasks
    | succ k => exact hbusy k (by omega)

theorem services_drain_sample : (System.service^[1] sampleSystem).statics.hasTasks = false :=
  (services_drain (n := 1) sampleSystem_run (by decide) (by decide +kernel)).2.1

end TockKernel.DeferredCall

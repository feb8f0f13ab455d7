import TockKernel.KVStorePermissions.Enforcement

/-!
# Answers to requests

Whatever is in the store, the capsule answers each request it has taken once and
is ready for the next one, unless what it reads is too short for a header.
-/

namespace TockKernel.KVStorePermissions

open Capsule KeyHeader StoragePermissions Option

def Capsule.takes (s : Capsule) (behaviour : Behaviour) : Event → List Request
  | .request r =>
    match (s.make behaviour r).1 with
    | .ok () => [r]
    | .error _ => []
  | .complete => []

/-- The states of runs from any store, with the requests taken, the last one
first. -/
inductive Taken : List Request → Capsule → Prop where
  | start {s : Capsule} (buffer : List Byte) (hlength : buffer.length = headerLength)
      (hheader : s.headerValue = some buffer) (hoperation : s.operation = none)
      (hpending : s.pending = none) (hrequest : s.request = none)
      (hcallbacks : s.callbacks = []) : Taken [] s
  | step {requests : List Request} {s s' : Capsule} (behaviour : Behaviour) (event : Event)
      (htaken : Taken requests s) (hstep : s.step behaviour event = some s') :
      Taken (s.takes behaviour event ++ requests) s'

structure Answers (r : Request) (callback : Callback) : Prop where
  operation : callback.operation = r.operation
  key : callback.key = r.key
  value : r.Returns callback.value

/-- The store brings an object, but too little of it for a header. -/
def ShortRead (s : Capsule) (behaviour : Behaviour) : Prop :=
  ∃ key buffer, s.pending = some (.get key buffer) ∧
    copied (s.storeGet behaviour key buffer).1 = true ∧
    (s.storeGet behaviour key buffer).2.length < headerLength

structure Serving (requests : List Request) (s : Capsule) : Prop where
  /-- With an empty store nothing is said about permissions. -/
  phase : Phase { s with store := fun _ => none }
  slot : s.operation = none ↔ s.request = none
  answered : ∃ done, requests = s.request.toList ++ done ∧ List.Forall₂ Answers done s.callbacks

variable {s s' : Capsule} {behaviour : Behaviour} {requests : List Request} {r : Request}
  {key : Key} {buffer value : List Byte}

theorem KeyHeader.newFromBuf_eq_none_iff :
    newFromBuf value = none ↔ value.length < headerLength := by
  refine ⟨fun h => ?_, newFromBuf_of_lt⟩
  by_contra hlen
  obtain ⟨header, hheader⟩ := exists_newFromBuf (not_lt.mp hlen)
  simp [h] at hheader

theorem shortRead_iff (s : Capsule) (hpending : s.pending = some (.get key buffer))
    (check : StoragePermissions → BitVec 32 → Bool) :
    s.headerPasses check (s.storeGet behaviour key buffer).1
      (s.storeGet behaviour key buffer).2 = none ↔ ShortRead s behaviour := by
  rw [headerPasses_eq_none_iff, newFromBuf_eq_none_iff]
  simp [ShortRead, hpending]

/-! ## Requests -/

/-- A request does not look at the store. -/
theorem make_emptied : (make behaviour { s with store := fun _ => none } r).2 =
    { (s.make behaviour r).2 with store := fun _ => none } := by
  cases hrequest : r.operation with
  | get =>
    simp only [make, hrequest, Capsule.get]
    split_ifs with hbusy
    · rfl
    · cases behaviour.refusal <;> rfl
  | delete =>
    simp only [make, hrequest, delete]
    split_ifs with hbusy
    · rfl
    · cases s.headerValue <;> cases behaviour.refusal <;> rfl
  | add =>
    simp only [make, hrequest, Capsule.insert]
    cases r.permissions.getWriteId with
    | none => rfl
    | some writeId =>
      dsimp only
      split_ifs with hbusy hroom
      · rfl
      · rfl
      · cases behaviour.refusal <;> rfl
  | set | update =>
    simp only [make, hrequest, Capsule.insert]
    cases r.permissions.getWriteId with
    | none => rfl
    | some writeId =>
      dsimp only
      split_ifs with hbusy hroom
      · rfl
      · rfl
      · cases s.headerValue <;> cases behaviour.refusal <;> rfl

/-- An idle capsule takes the request, or refuses it and stays idle. -/
theorem make_outcome (behaviour : Behaviour) (r : Request) (hoper : s.operation = none)
    (hheader : s.headerValue = some buffer) :
    (s.make behaviour r).1 = .ok () ∧ (s.make behaviour r).2.request = some r ∧
      (s.make behaviour r).2.operation ≠ none ∨ (∃ error, (s.make behaviour r).1 = .error error) ∧
      (s.make behaviour r).2.request = s.request ∧ (s.make behaviour r).2.operation = none := by
  have hidle : s.operation.isSome = false := by rw [hoper, isSome_none]
  cases hrequest : r.operation with
  | get | delete =>
    simp only [make, hrequest, Capsule.get, delete, hidle, hheader]
    cases behaviour.refusal with
    | none => exact .inl ⟨rfl, rfl, some_ne_none _⟩
    | some error => exact .inr ⟨⟨error, rfl⟩, rfl, hoper⟩
  | set | add | update =>
    simp only [make, hrequest, Capsule.insert, hidle, hheader]
    cases r.permissions.getWriteId with
    | none => exact .inr ⟨⟨_, rfl⟩, rfl, hoper⟩
    | some writeId =>
      by_cases hroom : r.value.length < headerLength
      · simp only [hroom]
        exact .inr ⟨⟨_, rfl⟩, rfl, hoper⟩
      simp only [hroom]
      cases behaviour.refusal with
      | none => exact .inl ⟨rfl, rfl, some_ne_none _⟩
      | some error => exact .inr ⟨⟨error, rfl⟩, rfl, hoper⟩

theorem Serving.make (h : Serving requests s) :
    Serving (s.takes behaviour (.request r) ++ requests) (s.make behaviour r).2 := by
  obtain ⟨done, hdone, hanswers⟩ := h.answered
  by_cases hbusy : s.operation.isSome
  · obtain ⟨error, hmake⟩ : ∃ error, s.make behaviour r = (.error error, s) := make_of_isSome hbusy
    simpa only [takes, hmake, List.nil_append] using h
  rw [not_isSome_iff_eq_none] at hbusy
  have hrequest := h.slot.mp hbusy
  obtain ⟨buffer, hheader, -⟩ : s.HasBuffer := by
    cases h.phase with
    | idle _ _ hbuffer => exact hbuffer
    | getting _ _ _ hoper | checking _ _ _ _ hoper => cases hbusy.symm.trans hoper
    | changing _ _ _ hoper => simp [hbusy] at hoper
  refine ⟨make_emptied ▸ phase_make h.phase, ?_, done, ?_, by rwa [make_callbacks]⟩
  all_goals
    obtain ⟨hok, hnew, hset⟩ | ⟨⟨error, herror⟩, hsame, hfree⟩ :=
      make_outcome behaviour r hbusy hheader <;> simp_all [takes]

/-! ## Completions -/

theorem Serving.answer (h : Serving requests s) (hrequest : s.request = some r)
    (hbuffer : s'.HasBuffer) {callback : Callback} (hanswer : Answers r callback)
    (hidle : s'.operation = none ∧ s'.request = none ∧ s'.pending = none ∧
      s'.callbacks = callback :: s.callbacks) : Serving requests s' := by
  obtain ⟨done, hdone, hanswers⟩ := h.answered
  obtain ⟨hoper, hfree, hpending, hcallbacks⟩ := hidle
  refine ⟨.idle hoper hpending hbuffer, iff_of_true hoper hfree,
    r :: done, ?_, hcallbacks ▸ .cons hanswer hanswers⟩
  rw [hdone, hrequest, hfree]
  rfl

theorem Serving.complete_eq_none_iff (h : Serving requests s) :
    s.complete behaviour = none ↔ ShortRead s behaviour := by
  cases h.phase with
  | idle hoper hpending => simp_all [Capsule.complete, ShortRead]
  | getting r hrequest hget hoper hids hpending =>
    rw [complete_getting_eq (s := s) hoper hpending, map_eq_none_iff]
    exact shortRead_iff s hpending _
  | checking r buffer hrequest hkept hoper hids hpending =>
    obtain ⟨_, _, _, _, hcomplete, -⟩ :=
      complete_checking_eq (s := s) hkept hoper hpending behaviour
    rw [hcomplete, map_eq_none_iff]
    exact shortRead_iff s hpending _
  | changing r storeCall hrequest hoper hpending hauthorised =>
    cases hauthorised <;> simp_all [Capsule.complete, ShortRead]

theorem Serving.complete (h : Serving requests s) (hstep : s.complete behaviour = some s') :
    Serving requests s' ∧ (∀ key value, s'.pending ≠ some (.get key value)) ∧
      ((∀ key value, s.pending ≠ some (.get key value)) → s'.request = none) := by
  cases h.phase with
  | idle hoper hpending =>
    replace hpending : s.pending = none := hpending
    obtain rfl : s = s' := by simpa [Capsule.complete, hpending] using hstep
    exact ⟨h, by simp [hpending], fun _ => h.slot.mp hoper⟩
  | getting r hrequest hget hoper hids hpending hbuffer =>
    rw [complete_getting_eq (s := s) hoper hpending] at hstep
    obtain ⟨passes, -, rfl⟩ := map_eq_some_iff.mp hstep
    have hread := (storeGet_got s behaviour r.key r.value).length_le
    refine ⟨?_, by cases passes <;> simp [callback], fun hother => absurd hpending (hother _ _)⟩
    cases passes
    all_goals
      refine h.answer hrequest hbuffer ⟨hget.symm, rfl, ?_⟩ ⟨rfl, rfl, rfl, rfl⟩
      simp only [Request.Returns, hget, List.length_map, List.length_drop]
      omega
  | checking r buffer hrequest hkept hoper hids hpending hlen =>
    obtain ⟨_, _, _, storeCall, hcomplete, -, hreturned, hauthorised⟩ :=
      complete_checking_eq (s := s) hkept hoper hpending behaviour
    rw [hcomplete] at hstep
    obtain ⟨passes, hpasses, rfl⟩ := map_eq_some_iff.mp hstep
    have hlen := (storeGet_got s behaviour r.key buffer).length_eq hlen hpasses
    have hcall := hauthorised (fun _ => none) (fun _ => by simp)
    refine ⟨?_, ?_, fun hother => absurd hpending (hother _ _)⟩ <;> unfold change <;>
      split <;> try split
    · exact ⟨.changing r storeCall hrequest (by simp_all) rfl hcall ⟨_, rfl, hlen⟩, h.slot,
        h.answered⟩
    iterate 2 exact h.answer hrequest ⟨_, rfl, hlen⟩ ⟨rfl, rfl, hreturned⟩ ⟨rfl, rfl, rfl, rfl⟩
    · cases hcall <;> simp
    all_goals simp [callback]
  | changing r storeCall hrequest hoper hpending hauthorised hbuffer =>
    replace hpending : s.pending = some storeCall := hpending
    cases hauthorised with
    | set writeId hset hwriteId | update writeId hset hwriteId | add writeId hset hwriteId =>
      simp only [Capsule.complete, hpending, some.injEq] at hstep
      subst hstep
      refine ⟨h.answer hrequest hbuffer ⟨hset.symm, rfl, ?_⟩ ⟨rfl, rfl, rfl, rfl⟩,
        by simp [changeComplete, callback], fun _ => rfl⟩
      simp [Request.Returns, hset, hwriteId]
    | delete hdelete =>
      simp only [Capsule.complete, hpending, some.injEq] at hstep
      subst hstep
      refine ⟨h.answer hrequest hbuffer ⟨hdelete.symm, rfl, ?_⟩ ⟨rfl, rfl, rfl, rfl⟩,
        by simp [changeComplete, callback], fun _ => rfl⟩
      simp [Request.Returns, hdelete]

/-! ## Runs -/

theorem Taken.serving (h : Taken requests s) : Serving requests s := by
  induction h with
  | start buffer hlen hheader hoper hpending hrequest hcallbacks =>
    exact ⟨.idle hoper hpending ⟨buffer, hheader, hlen⟩, iff_of_true hoper hrequest,
      [], by rw [hrequest]; rfl, hcallbacks ▸ .nil⟩
  | step behaviour event _ hstep ih =>
    cases event with
    | request r => exact some.inj hstep ▸ ih.make
    | complete => exact (ih.complete hstep).1

/-- From any store: the capsule panics only if what the store brings is too
short for a header, the header buffer is not lost, the slot is taken by the
request in progress, and every other request taken has had its answer; that one
has it after two completions. -/
theorem requests_answered {requests : List Request} {s : Capsule} (h : Taken requests s)
    (behaviour : Behaviour) (event : Event) :
    (s.step behaviour event = none ↔ event = .complete ∧ ShortRead s behaviour) ∧
    (∃ buffer, buffer.length = headerLength ∧ (s.headerValue = some buffer ∨
      s.operation ≠ some .get ∧ ∃ key, s.pending = some (.get key buffer))) ∧
    (s.operation = none ↔ s.request = none) ∧
    (∃ done, requests = s.request.toList ++ done ∧ List.Forall₂ Answers done s.callbacks) ∧
    ∀ later s1 s2, s.complete behaviour = some s1 → s1.complete later = some s2 →
      s2.request = none := by
  have hserving := h.serving
  refine ⟨?_, ?_, hserving.slot, hserving.answered, fun later s1 s2 hfirst hsecond => ?_⟩
  · cases event with
    | request r => simp [step]
    | complete => simpa [step] using hserving.complete_eq_none_iff
  · cases hserving.phase with
    | idle _ _ hbuffer | getting _ _ _ _ _ _ hbuffer | changing _ _ _ _ _ _ hbuffer =>
      obtain ⟨buffer, hheader, hlen⟩ := hbuffer
      exact ⟨buffer, hlen, .inl hheader⟩
    | checking r buffer _ hkept hoper _ hpending hlen =>
      refine ⟨buffer, hlen, .inr ⟨?_, r.key, hpending⟩⟩
      obtain hset | ⟨hset | hset, -⟩ := hkept <;> simp_all
  · obtain ⟨hnext, hchanging, -⟩ := hserving.complete hfirst
    exact (hnext.complete hsecond).2.2 hchanging

theorem sampleCapsule_taken : Taken [] sampleCapsule := .start _ (by decide) rfl rfl rfl rfl rfl

/-- A request to get the object is taken and completed: it has had its answer. -/
theorem requests_answered_sample : ∃ s,
    (sampleCapsule.make sampleBehaviour (sampleGet 12 [7])).2.complete sampleBehaviour = some s ∧
      s.request = none ∧ List.Forall₂ Answers [sampleGet 12 [7]] s.callbacks := by
  have htaken := sampleCapsule_taken.step sampleBehaviour (.request (sampleGet 12 [7])) rfl
  refine ⟨_, rfl, rfl, ?_⟩
  obtain ⟨-, -, -, ⟨done, hdone, hanswers⟩, -⟩ :=
    requests_answered (htaken.step sampleBehaviour .complete rfl) sampleBehaviour .complete
  cases hdone
  exact hanswers

/-- A request to delete an object of one byte, from a store that cuts the buffer
to the object, panics. -/
theorem short_object_panics :
    let r : Request := ⟨.delete, [1], [], readers []⟩
    let s := { sampleCapsule with store := Function.update (fun _ => none) [1] (some [42]) }
    Taken [r] (s.make sampleBehaviour r).2 ∧
      (s.make sampleBehaviour r).2.step ⟨none, none, [], true⟩ .complete = none := by
  intro r s
  have hstart : Taken [] s := .start _ (by decide) rfl rfl rfl rfl rfl
  exact ⟨hstart.step sampleBehaviour (.request r) rfl, rfl⟩

end TockKernel.KVStorePermissions

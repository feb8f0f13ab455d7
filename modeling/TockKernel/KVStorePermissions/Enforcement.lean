import TockKernel.KVStorePermissions.Model

/-!
# Enforcement of storage permissions

Objects are read only with the permission to read what their writer has stored,
and changed only with the permission to modify it. The header of an object is
read before the object is changed, and no other request is taken in between, so
that what the header allows is still allowed when the change is made.
-/

namespace TockKernel.KVStorePermissions

open Capsule KeyHeader Function StoragePermissions Option List

/-! ## Headers of stored objects -/

namespace KeyHeader

theorem newFromBuf_append (buf rest : List Byte) (h : headerLength ≤ buf.length) :
    newFromBuf (buf ++ rest) = newFromBuf buf := by
  match buf, h with
  | _ :: _ :: _ :: _ :: _ :: _ :: _ :: _ :: _ :: _, _ => rfl

theorem newFromBuf_take (buf : List Byte) (hn : headerLength ≤ n)
    (hbuf : headerLength ≤ buf.length) : newFromBuf (buf.take n) = newFromBuf buf := by
  have hsplit := newFromBuf_append (buf.take n) (buf.drop n) (by rw [length_take]; omega)
  rw [take_append_drop] at hsplit
  exact hsplit.symm

theorem exists_newFromBuf {buf : List Byte} (h : headerLength ≤ buf.length) :
    ∃ header, newFromBuf buf = some header := by
  match buf, h with
  | _ :: _ :: _ :: _ :: _ :: _ :: _ :: _ :: _ :: _, _ => exact ⟨_, rfl⟩

theorem newFromBuf_of_lt {buf : List Byte} (h : buf.length < headerLength) :
    newFromBuf buf = none := by
  unfold newFromBuf
  split
  next =>
    simp only [length_cons, headerLength] at h
    omega
  next => rfl

/-- What is written as a header is read back. -/
theorem newFromBuf_copyToBuf (header : KeyHeader) (buf : List Byte) :
    newFromBuf (header.copyToBuf buf) = some header := by
  simp [copyToBuf, bytes, leBytes, newFromBuf]

theorem length_copyToBuf (header : KeyHeader) (buf : List Byte) :
    headerLength ≤ (header.copyToBuf buf).length := by
  simp [copyToBuf, bytes, leBytes, headerLength]

end KeyHeader

/-! ## The phases of a request -/

/-- The permissions of a request allow to change the object at its key, if there
is one. -/
def Request.MayModify (r : Request) (store : Key → Option (List Byte)) : Prop :=
  ∀ object, store r.key = some object → ∃ header, KeyHeader.newFromBuf object = some header ∧
      r.permissions.checkWritePermission header.writeId = true

/-- A call of the store that changes it, made for a request that may. -/
inductive Authorised (store : Key → Option (List Byte)) (r : Request) : StoreCall → Prop where
  | set (writeId : BitVec 32) (hoperation : r.operation = .set)
      (hwriteId : r.permissions.getWriteId = some writeId) (hmodify : r.MayModify store) :
      Authorised store r (.set r.key (r.object writeId))
  | update (writeId : BitVec 32) (hoperation : r.operation = .update)
      (hwriteId : r.permissions.getWriteId = some writeId) (hmodify : r.MayModify store) :
      Authorised store r (.update r.key (r.object writeId))
  | add (writeId : BitVec 32) (hoperation : r.operation = .add)
      (hwriteId : r.permissions.getWriteId = some writeId) :
      Authorised store r (.add r.key (r.object writeId))
  | delete (hoperation : r.operation = .delete) (hmodify : r.MayModify store) :
      Authorised store r (.delete r.key)

def Kept (r : Request) (value : Option (List Byte)) : Prop :=
  (r.operation = .delete) ∨ ((r.operation = .set ∨ r.operation = .update) ∧ ∃ writeId,
      r.permissions.getWriteId = some writeId ∧ value = some (r.object writeId))

/-- The buffer for headers is in its cell. -/
def Capsule.HasBuffer (s : Capsule) : Prop :=
  ∃ buffer, s.headerValue = some buffer ∧ buffer.length = headerLength

/-- The capsule is idle, or has a call of the store pending for a request. -/
inductive Phase (s : Capsule) : Prop where
  | idle (hoperation : s.operation = none) (hpending : s.pending = none) (hbuffer : s.HasBuffer)
  | getting (r : Request) (hrequest : s.request = some r) (hget : r.operation = .get)
      (hoperation : s.operation = some .get) (hids : s.validIds = some r.permissions)
      (hpending : s.pending = some (.get r.key r.value)) (hbuffer : s.HasBuffer)
  | checking (r : Request) (buffer : List Byte) (hrequest : s.request = some r)
      (hkept : Kept r s.value) (hoperation : s.operation = some r.operation)
      (hids : s.validIds = some r.permissions) (hpending : s.pending = some (.get r.key buffer))
      (hlength : buffer.length = headerLength)
  | changing (r : Request) (storeCall : StoreCall) (hrequest : s.request = some r)
      (hoperation : s.operation.isSome) (hpending : s.pending = some storeCall)
      (hauthorised : Authorised s.store r storeCall) (hbuffer : s.HasBuffer)

def WellFormed (store : Key → Option (List Byte)) : Prop :=
  ∀ key object, store key = some object → headerLength ≤ object.length

structure Invariant (s : Capsule) : Prop where
  phase : Phase s
  wellFormed : WellFormed s.store

/-! ## Requests -/

namespace Capsule

variable {s : Capsule} {behaviour : Behaviour} {r : Request}

theorem make_store : (s.make behaviour r).2.store = s.store := by
  unfold make get insert delete
  repeat' split
  all_goals rfl

theorem make_callbacks : (s.make behaviour r).2.callbacks = s.callbacks := by
  unfold make get insert delete
  repeat' split
  all_goals rfl

theorem make_of_isSome (hbusy : s.operation.isSome) :
    ∃ error, s.make behaviour r = (.error error, s) := by
  cases hoperation : r.operation <;> cases hwriteId : r.permissions.getWriteId <;>
      simp [make, get, insert, delete, hoperation, hwriteId, hbusy]

section Idle

variable (hoperation : s.operation = none) (hpending : s.pending = none) (hbuffer : s.HasBuffer)
include hoperation hpending hbuffer

theorem phase_get (hget : r.operation = .get) : Phase (s.get behaviour r).2 := by
  simp only [get, hoperation, isSome_none, Bool.false_eq_true]
  cases behaviour.refusal with
  | none => exact .getting r rfl hget rfl rfl rfl hbuffer
  | some error => exact .idle rfl hpending hbuffer

theorem phase_delete (hdelete : r.operation = .delete) : Phase (s.delete behaviour r).2 := by
  obtain ⟨buffer, hheader, hlength⟩ := hbuffer
  simp only [delete, hoperation, hheader, isSome_none, Bool.false_eq_true]
  cases behaviour.refusal with
  | none =>
    exact .checking r buffer rfl (.inl hdelete) (congrArg some hdelete.symm) rfl rfl hlength
  | some error => exact .idle rfl hpending ⟨buffer, rfl, hlength⟩

theorem phase_insert (hinsert : (r.operation = .set ∨ r.operation = .update) ∨ r.operation = .add) :
    Phase (s.insert behaviour r).2 := by
  have hidle : Phase s := .idle hoperation hpending hbuffer
  obtain ⟨buffer, hheader, hlength⟩ := hbuffer
  cases hwriteId : r.permissions.getWriteId with
  | none => simpa only [insert, hwriteId] using hidle
  | some writeId =>
    by_cases hroom : r.value.length < headerLength
    · simpa [insert, hwriteId, hoperation, hroom] using hidle
    simp only [insert, hwriteId, hoperation, hheader, hroom]
    obtain hset | hset := hinsert
    · have hkept : Kept r (some (r.object writeId)) := .inr ⟨hset, writeId, hwriteId, rfl⟩
      obtain hset | hset := hset
      all_goals
        simp only [hset]
        cases behaviour.refusal with
        | none => exact .checking r buffer rfl hkept (congrArg some hset.symm) rfl rfl hlength
        | some error => exact .idle rfl hpending ⟨buffer, rfl, hlength⟩
    cases behaviour.refusal with
    | none =>
      simp only [hset]
      exact .changing r _ rfl rfl rfl (.add writeId hset hwriteId) ⟨buffer, rfl, hlength⟩
    | some error =>
      simp only [hset]
      exact hidle

end Idle

theorem phase_make (h : Phase s) : Phase (s.make behaviour r).2 := by
  by_cases hbusy : s.operation.isSome
  · obtain ⟨error, hmake⟩ : ∃ error, s.make behaviour r = (.error error, s) := make_of_isSome hbusy
    rw [hmake]
    exact h
  cases h with
  | idle hoperation hpending hbuffer =>
    cases hrequest : r.operation with
    | get =>
      simp only [make, hrequest]
      exact phase_get hoperation hpending hbuffer hrequest
    | delete =>
      simp only [make, hrequest]
      exact phase_delete hoperation hpending hbuffer hrequest
    | set =>
      simp only [make, hrequest]
      exact phase_insert hoperation hpending hbuffer (.inl (.inl hrequest))
    | update =>
      simp only [make, hrequest]
      exact phase_insert hoperation hpending hbuffer (.inl (.inr hrequest))
    | add =>
      simp only [make, hrequest]
      exact phase_insert hoperation hpending hbuffer (.inr hrequest)
  | getting _ _ _ hoperation | checking _ _ _ _ hoperation => simp [hoperation] at hbusy
  | changing _ _ _ hoperation => exact absurd hoperation hbusy

end Capsule

/-! ## Reading from the store -/

/-- What the store may bring for a key and a buffer. -/
inductive Got (store : Key → Option (List Byte)) (key : Key)
    (buffer : List Byte) : Except ErrorCode Unit → List Byte → Prop where
  | missing (leftover : List Byte) (hkey : store key = none)
      (hlength : leftover.length = buffer.length) :
      Got store key buffer (.error .nosupport) leftover
  | failed (leftover : List Byte) (hlength : leftover.length = buffer.length) :
      Got store key buffer (.error .fail) leftover
  | whole (object rest : List Byte) (hkey : store key = some object)
      (hfits : object.length + rest.length ≤ buffer.length) :
      Got store key buffer (.ok ()) (object ++ rest)
  | cut (object : List Byte) (hkey : store key = some object)
      (hlong : buffer.length < object.length) :
      Got store key buffer (.error .size) (object.take buffer.length)

section Reading

variable {s : Capsule} {behaviour : Behaviour} {key : Key} {buffer : List Byte}
  {result : Except ErrorCode Unit} {value : List Byte}

theorem storeGet_got (s : Capsule) (behaviour : Behaviour) (key : Key) (buffer : List Byte) :
    Got s.store key buffer (s.storeGet behaviour key buffer).1
      (s.storeGet behaviour key buffer).2 := by
  have hleftover : ((behaviour.leftover ++ buffer).take buffer.length).length = buffer.length := by
    simp
  cases hfailure : behaviour.failure with
  | some error =>
    simp only [storeGet, hfailure]
    exact .failed _ hleftover
  | none =>
    cases hkey : s.store key with
    | none =>
      simp only [storeGet, hfailure, hkey]
      exact .missing _ hkey hleftover
    | some object =>
      simp only [storeGet, hfailure, hkey]
      split
      next hfits =>
        cases behaviour.trims with
        | true =>
          have hgot : Got s.store key buffer (.ok ()) (object ++ []) :=
            .whole object [] hkey (by simpa using hfits)
          simpa using hgot
        | false =>
          refine .whole object _ hkey ?_
          rw [length_drop]
          omega
      next hlong => exact .cut object hkey (not_le.mp hlong)

theorem copied_storeGet_iff : copied (s.storeGet behaviour key buffer).1 ↔
      behaviour.failure = none ∧ ∃ object, s.store key = some object := by
  cases hfailure : behaviour.failure with
  | some error => simp [storeGet, hfailure, copied]
  | none =>
    cases hkey : s.store key with
    | none => simp [storeGet, hfailure, hkey, copied]
    | some object =>
      simp only [storeGet, hfailure, hkey]
      split <;> simp [copied]

section

variable (h : Got s.store key buffer result value)
include h

section

variable (hcopied : copied result = true) (hwell : WellFormed s.store)
  (hroom : headerLength ≤ buffer.length)
include hcopied hwell hroom

theorem Got.newFromBuf_eq :
    ∃ object, s.store key = some object ∧ newFromBuf value = newFromBuf object := by
  cases h with
  | missing leftover hkey | failed leftover => simp [copied] at hcopied
  | whole object rest hkey hfits =>
    exact ⟨object, hkey, newFromBuf_append object rest (hwell key object hkey)⟩
  | cut object hkey hlong =>
    exact ⟨object, hkey, newFromBuf_take object hroom (hwell key object hkey)⟩

theorem Got.newFromBuf_ne_none : newFromBuf value ≠ none := by
  obtain ⟨object, hkey, hsame⟩ := h.newFromBuf_eq hcopied hwell hroom
  obtain ⟨header, hheader⟩ := exists_newFromBuf (hwell key object hkey)
  simp [hsame, hheader]

end

theorem Got.length_le : value.length ≤ buffer.length := by
  cases h with
  | missing leftover hkey hlength => omega
  | failed leftover hlength => omega
  | whole object rest hkey hfits =>
    rw [length_append]
    exact hfits
  | cut object hkey hlong =>
    rw [length_take]
    omega

end

theorem headerPasses_eq_none_iff (check : StoragePermissions → BitVec 32 → Bool) :
    s.headerPasses check result value = none ↔ copied result ∧ newFromBuf value = none := by
  cases hcopied : copied result <;> cases hheader : newFromBuf value <;>
      simp [headerPasses, hcopied, hheader]

theorem Got.length_eq (h : Got s.store key buffer result value)
    (hlength : buffer.length = headerLength) {t : Capsule} {passes : Bool}
    {check : StoragePermissions → BitVec 32 → Bool}
    (hpasses : t.headerPasses check result value = some passes) : value.length = headerLength := by
  refine le_antisymm (hlength ▸ h.length_le) (not_lt.mp fun hshort => ?_)
  have hnone := newFromBuf_of_lt hshort
  cases h with
  | missing leftover hkey hsame | failed leftover hsame => omega
  | whole | cut => simp [headerPasses, copied, hnone] at hpasses

theorem Got.object_of_headerPasses (h : Got s.store key buffer result value)
    (hwell : WellFormed s.store) (hroom : headerLength ≤ buffer.length)
    {t : Capsule} {permissions : StoragePermissions} (hids : t.validIds = some permissions)
    {check : StoragePermissions → BitVec 32 → Bool}
    (hpasses : t.headerPasses check result value = some true) :
    ∃ object header, s.store key = some object ∧ newFromBuf object = some header ∧
      check permissions header.writeId := by
  cases hcopied : copied result with
  | false => simp [headerPasses, hcopied] at hpasses
  | true =>
    obtain ⟨object, hkey, hsame⟩ := h.newFromBuf_eq hcopied hwell hroom
    obtain ⟨header, hheader⟩ := exists_newFromBuf (hwell key object hkey)
    rw [hheader] at hsame
    refine ⟨object, header, hkey, hheader, ?_⟩
    simp [headerPasses, hcopied, hsame, hids] at hpasses
    exact hpasses.2

end Reading

/-! ## What a step may do -/

/-- Objects are changed, stored and read as the permissions of the request that
is being served allow. -/
structure Enforced (s s' : Capsule) : Prop where
  changed : ∀ key object, s.store key = some object →
    s'.store key ≠ some object → ∃ r header, s.request = some r ∧ r.key = key ∧
      r.operation ∈ [.set, .update, .delete] ∧ KeyHeader.newFromBuf object = some header ∧
      r.permissions.checkWritePermission header.writeId = true
  stored : ∀ key object, s'.store key = some object →
    s.store key ≠ some object → ∃ r writeId, s.request = some r ∧ r.key = key ∧
      r.operation ∈ [.set, .add, .update] ∧
      r.permissions.getWriteId = some writeId ∧ object = r.object writeId ∧
      (newFromBuf object).map KeyHeader.writeId = some writeId
  read : ∀ callback, s'.callbacks = callback :: s.callbacks →
    callback.operation = .get → ∃ r, s.request = some r ∧ r.operation = .get ∧
      r.key = callback.key ∧ ((∃ object header, s.store r.key = some object ∧
          KeyHeader.newFromBuf object = some header ∧
          r.permissions.checkReadPermission header.writeId = true ∧ (callback.result = .ok () →
            object.drop headerLength <+: callback.value) ∧ (callback.result = .error .size →
            callback.value <+: object.drop headerLength)) ∨ (callback.result = .error .nosupport ∧
          ∀ byte ∈ callback.value, byte = 0))

variable {s : Capsule}

theorem Enforced.of_store_eq {s' : Capsule} (hstore : s'.store = s.store)
    (hcallbacks : s'.callbacks = s.callbacks ∨ ∃ callback, s'.callbacks =
      callback :: s.callbacks ∧ callback.operation ≠ .get) : Enforced s s' where
  changed key object hkey hchanged := by
    rw [hstore] at hchanged
    exact absurd hkey hchanged
  stored key object hkey hstored := by
    rw [hstore] at hkey
    exact absurd hkey hstored
  read callback hcallback hget := by
    obtain hsame | ⟨_, hnew, hother⟩ := hcallbacks
    · rw [hsame] at hcallback
      exact absurd (congrArg List.length hcallback) (by simp)
    rw [hnew] at hcallback
    obtain rfl := List.head_eq_of_cons_eq hcallback
    exact absurd hget hother

/-! ## Completions -/

section Completions

variable {s : Capsule} {behaviour : Behaviour} {r : Request}
  {buffer : List Byte}

section

variable (operation : Operation) (allowed : Bool) (key : Key)
  (value : List Byte) (storeCall : StoreCall)
include operation allowed key value storeCall

theorem change_store :
    (s.change behaviour operation allowed key value storeCall).store = s.store := by
  unfold change
  repeat' split
  all_goals rfl

theorem change_callbacks (hother : operation ≠ .get) :
    (s.change behaviour operation allowed key value storeCall).callbacks = s.callbacks ∨ ∃ callback,
        (s.change behaviour operation allowed key value storeCall).callbacks =
          callback :: s.callbacks ∧ callback.operation ≠ .get := by
  unfold change
  repeat' split
  · exact .inl rfl
  all_goals exact .inr ⟨_, rfl, hother⟩

end

variable {value : List Byte} {new : Option (List Byte)}

theorem phase_change {operation : Operation} {allowed : Bool} {key : Key} {storeCall : StoreCall}
    (hrequest : s.request = some r) (hoperation : s.operation.isSome) (hpending : s.pending = none)
    (hbuffer : s.HasBuffer) (hallowed : allowed → Authorised s.store r storeCall) :
    Phase (s.change behaviour operation allowed key value storeCall) := by
  unfold change
  split
  next hallow =>
    split
    next =>
      exact .changing r storeCall hrequest hoperation rfl (hallowed hallow) hbuffer
    next => exact .idle rfl hpending hbuffer
  next => exact .idle rfl hpending hbuffer

theorem mayModify_of_headerPasses {result : Except ErrorCode Unit}
    (hgot : Got s.store r.key buffer result value) (hwell : WellFormed s.store)
    (hlength : buffer.length = headerLength) (hids : s.validIds = some r.permissions)
    (hpasses : s.headerPasses checkWritePermission result value = some true) :
    r.MayModify s.store := by
  obtain ⟨_, header, hkey, hheader, hcheck⟩ :=
    hgot.object_of_headerPasses hwell hlength.ge hids hpasses
  intro object' hkey'
  obtain rfl := some.inj (hkey.symm.trans hkey')
  exact ⟨header, hheader, hcheck⟩

/-- What is handed back with the answer to a request: the caller's buffer, with a
header or with what was read; `delete` has none. -/
def Request.Returns (r : Request) (value : List Byte) : Prop :=
  match r.operation with
  | .get => value.length ≤ r.value.length
  | .delete => value = []
  | .set | .add | .update =>
    ∃ writeId, r.permissions.getWriteId = some writeId ∧ value = r.object writeId

section Checking

variable (hkept : Kept r s.value) (hoperation : s.operation = some r.operation)
  (hpending : s.pending = some (.get r.key buffer))
include hkept hoperation hpending

/-- The second call of the store is made if the header that was read shows that
the object may be changed, or if there is none yet. -/
theorem complete_checking_eq (behaviour : Behaviour) :
    ∃ kept created returned storeCall, s.complete behaviour =
      (s.headerPasses checkWritePermission (s.storeGet behaviour r.key buffer).1
        (s.storeGet behaviour r.key buffer).2).map (fun passes => change behaviour
          { s with
            pending := none
            headerValue := some (s.storeGet behaviour r.key buffer).2
            value := kept }
          r.operation (passes || created) r.key returned storeCall) ∧
      (created → notFound (s.storeGet behaviour r.key buffer).1) ∧
      r.Returns returned ∧ ∀ store, r.MayModify store → Authorised store r storeCall := by
  obtain ⟨headerValue, _, value, _, store, pending, _, _⟩ := s
  subst hoperation hpending
  simp only [map_eq_bind]
  obtain hdelete | ⟨hset | hset, writeId, hwriteId, rfl⟩ := hkept
  · refine ⟨value, false, [], .delete r.key, ?_, nofun, ?_, fun _ => .delete hdelete⟩
    · simp only [hdelete, Bool.or_false]
      rfl
    · simp [Request.Returns, hdelete]
  · refine ⟨none, notFound _, r.object writeId, .set r.key (r.object writeId), ?_, id, ?_,
      fun _ => .set writeId hset hwriteId⟩
    · simp only [hset]
      rfl
    · simp [Request.Returns, hset, hwriteId]
  refine ⟨none, false, r.object writeId, .update r.key (r.object writeId), ?_, nofun, ?_,
    fun _ => .update writeId hset hwriteId⟩
  · simp only [hset, Bool.or_false]
    rfl
  · simp [Request.Returns, hset, hwriteId]

theorem complete_checking (behaviour : Behaviour) (hwell : WellFormed s.store)
    (hrequest : s.request = some r) (hids : s.validIds = some r.permissions)
    (hlength : buffer.length = headerLength) :
    ∃ s', s.complete behaviour = some s' ∧ Invariant s' ∧ Enforced s s' := by
  obtain ⟨_, _, _, _, hcomplete, hcreated, -, hauthorised⟩ :=
    complete_checking_eq hkept hoperation hpending behaviour
  have hgot := storeGet_got s behaviour r.key buffer
  generalize s.storeGet behaviour r.key buffer = got at hgot hcomplete hcreated
  obtain ⟨result, value⟩ := got
  have hread : s.headerPasses checkWritePermission result value ≠ none := by
    rw [ne_eq, headerPasses_eq_none_iff]
    exact fun hshort => hgot.newFromBuf_ne_none hshort.1 hwell hlength.ge hshort.2
  obtain ⟨_, hpasses⟩ := ne_none_iff_exists'.mp hread
  rw [hpasses] at hcomplete
  have hother : r.operation ≠ .get := by
    obtain h | ⟨h | h, -⟩ := hkept <;> simp [h]
  refine ⟨_, hcomplete, ⟨?_, ?_⟩, Enforced.of_store_eq ?_ ?_⟩
  · refine phase_change hrequest (by simp [hoperation]) rfl
      ⟨_, rfl, hgot.length_eq hlength hpasses⟩ fun hallowed => hauthorised _ ?_
    obtain rfl | hmissing := Bool.or_eq_true_iff.mp hallowed
    · exact mayModify_of_headerPasses hgot hwell hlength hids hpasses
    -- There is no object that would have to be spared.
    cases hgot with
    | missing leftover hkey =>
      intro object hobject
      rw [hkey] at hobject
      cases hobject
    | failed leftover | whole object rest hkey | cut object hkey =>
      simp [notFound] at hcreated
      simp [hcreated] at hmissing
  · rw [change_store]
    exact hwell
  · exact change_store _ _ _ _ _
  · exact change_callbacks _ _ _ _ _ hother

end Checking

theorem Enforced.of_update {s' : Capsule} (hrequest : s.request = some r)
    (hstore : s'.store = update s.store r.key new)
    (hcallbacks : ∃ callback, s'.callbacks = callback :: s.callbacks ∧ callback.operation ≠ .get)
    (hold : ∀ object, s.store r.key = some object → r.operation ∈ [.set, .update, .delete] ∧
      r.MayModify s.store)
    (hnew : ∀ object, new = some object → r.operation ∈ [.set, .add, .update] ∧
      ∃ writeId, r.permissions.getWriteId = some writeId ∧ object = r.object writeId) :
    Enforced s s' where
  changed key object hkey hchanged := by
    by_cases hsame : key = r.key
    · subst hsame
      obtain ⟨hoperation, hmodify⟩ := hold object hkey
      obtain ⟨header, hheader, hcheck⟩ := hmodify object hkey
      exact ⟨r, header, hrequest, rfl, hoperation, hheader, hcheck⟩
    · rw [hstore, update_of_ne hsame] at hchanged
      exact absurd hkey hchanged
  stored key object hkey hstored := by
    by_cases hsame : key = r.key
    · subst hsame
      rw [hstore, update_self] at hkey
      obtain ⟨hoperation, writeId, hwriteId, hobject⟩ := hnew object hkey
      refine ⟨r, writeId, hrequest, rfl, hoperation, hwriteId, hobject, ?_⟩
      rw [hobject, Request.object, newFromBuf_copyToBuf]
      rfl
    · rw [hstore, update_of_ne hsame] at hkey
      exact absurd hkey hstored
  read callback hcallback hget := by
    obtain ⟨_, hcallback', hother⟩ := hcallbacks
    rw [hcallback'] at hcallback
    obtain rfl := head_eq_of_cons_eq hcallback
    exact absurd hget hother

theorem WellFormed.update {store : Key → Option (List Byte)} (h : WellFormed store) (key : Key)
    (hnew : ∀ object, new = some object → headerLength ≤ object.length) :
    WellFormed (update store key new) := by
  intro key' object hkey'
  by_cases hsame : key' = key
  · subst hsame
    rw [update_self] at hkey'
    exact hnew object hkey'
  · rw [update_of_ne hsame] at hkey'
    exact h key' object hkey'

theorem changeComplete_enforced {applies : Option (List Byte) → Bool} {operation : Operation}
    (hwell : WellFormed s.store) (hrequest : s.request = some r)
    (hbuffer : s.HasBuffer) (hother : operation ≠ .get)
    (hold : ∀ object, s.store r.key = some object → applies (some object) →
      r.operation ∈ [.set, .update, .delete] ∧ r.MayModify s.store)
    (hnew : ∀ object, new = some object → r.operation ∈ [.set, .add, .update] ∧
      ∃ writeId, r.permissions.getWriteId = some writeId ∧ object = r.object writeId) :
    Invariant (changeComplete { s with pending := none } operation r.key value
        (s.storeChange behaviour applies r.key new)) ∧
      Enforced s (changeComplete { s with pending := none } operation r.key value
        (s.storeChange behaviour applies r.key new)) := by
  have hphase : ∀ change, Phase
      (changeComplete { s with pending := none } operation r.key value change) :=
    fun change => .idle rfl rfl hbuffer
  have hsame : ∀ error, Enforced s (changeComplete { s with pending := none }
      operation r.key value (.error error, s.store)) := fun error =>
    Enforced.of_store_eq rfl (.inr ⟨_, rfl, hother⟩)
  unfold storeChange
  cases behaviour.failure with
  | some error => exact ⟨⟨hphase _, hwell⟩, hsame error⟩
  | none =>
    cases happlies : applies (s.store r.key) with
    | false => exact ⟨⟨hphase _, hwell⟩, hsame .nosupport⟩
    | true =>
      refine ⟨⟨hphase _, hwell.update r.key ?_⟩,
        Enforced.of_update hrequest rfl ⟨_, rfl, hother⟩ ?_ hnew⟩
      · intro object hobject
        obtain ⟨-, writeId, -, rfl⟩ := hnew object hobject
        exact length_copyToBuf _ _
      · intro object hobject
        rw [hobject] at happlies
        exact hold object hobject happlies

theorem complete_changing (behaviour : Behaviour) {storeCall : StoreCall}
    (hwell : WellFormed s.store) (hrequest : s.request = some r)
    (hpending : s.pending = some storeCall) (hauthorised : Authorised s.store r storeCall)
    (hbuffer : s.HasBuffer) :
    ∃ s', s.complete behaviour = some s' ∧ Invariant s' ∧ Enforced s s' := by
  cases hauthorised with
  | set writeId hoperation hwriteId hmodify | update writeId hoperation hwriteId hmodify =>
    simp only [complete, hpending]
    refine ⟨_, rfl, changeComplete_enforced hwell hrequest hbuffer (by simp) ?_ ?_⟩
    · exact fun _ _ _ => ⟨by simp [hoperation], hmodify⟩
    · rintro object ⟨⟩
      exact ⟨by simp [hoperation], writeId, hwriteId, rfl⟩
  | add writeId hoperation hwriteId =>
    simp only [complete, hpending]
    refine ⟨_, rfl, changeComplete_enforced hwell hrequest hbuffer (by simp) ?_ ?_⟩
    · exact fun _ _ happlies => by simp at happlies
    · rintro object ⟨⟩
      exact ⟨by simp [hoperation], writeId, hwriteId, rfl⟩
  | delete hoperation hmodify =>
    simp only [complete, hpending]
    refine ⟨_, rfl, changeComplete_enforced hwell hrequest hbuffer (by simp) ?_ ?_⟩
    · exact fun _ _ _ => ⟨by simp [hoperation], hmodify⟩
    · rintro object ⟨⟩

/-- The object that a request reads is longer than the header, and the buffer of
the request is not. -/
def ShortGet (s : Capsule) (behaviour : Behaviour) : Prop :=
  behaviour.failure = none ∧ ∃ r object, s.request = some r ∧
    r.operation = .get ∧ s.store r.key = some object ∧
    s.pending = some (.get r.key r.value) ∧ r.value.length < headerLength

theorem complete_getting_eq (hoperation : s.operation = some .get)
    (hpending : s.pending = some (.get r.key r.value)) : s.complete behaviour =
      (s.headerPasses checkReadPermission (s.storeGet behaviour r.key r.value).1
        (s.storeGet behaviour r.key r.value).2).map fun readAllowed =>
          if readAllowed then
            callback { s with pending := none } .get (s.storeGet behaviour r.key r.value).1 r.key
              ((s.storeGet behaviour r.key r.value).2.drop headerLength)
          else
            callback { s with pending := none } .get (.error .nosupport) r.key
              ((s.storeGet behaviour r.key r.value).2.map fun _ => 0) := by
  obtain ⟨headerValue, _, _, _, _, pending, _, _⟩ := s
  subst hoperation hpending
  rw [map_eq_bind]
  rfl

theorem complete_getting_none_iff (hwell : WellFormed s.store)
    (hrequest : s.request = some r) (hget : r.operation = .get)
    (hoperation : s.operation = some .get) (hpending : s.pending = some (.get r.key r.value)) :
    s.complete behaviour = none ↔ ShortGet s behaviour := by
  have hgot := storeGet_got s behaviour r.key r.value
  rw [complete_getting_eq hoperation hpending, map_eq_none_iff,
    headerPasses_eq_none_iff, copied_storeGet_iff]
  constructor
  · rintro ⟨⟨hfailure, object, hkey⟩, hheader⟩
    refine ⟨hfailure, r, object, hrequest, hget, hkey, hpending, ?_⟩
    by_contra hroom
    have hcopied : copied (s.storeGet behaviour r.key r.value).1 :=
      copied_storeGet_iff.mpr ⟨hfailure, object, hkey⟩
    exact hgot.newFromBuf_ne_none hcopied hwell (not_lt.mp hroom) hheader
  · rintro ⟨hfailure, _, object, hrequest', -, hkey, -, hshort⟩
    obtain rfl := some.inj (hrequest.symm.trans hrequest')
    exact ⟨⟨hfailure, object, hkey⟩, newFromBuf_of_lt (hgot.length_le.trans_lt hshort)⟩

theorem invariant_callback (hwell : WellFormed s.store) (hbuffer : s.HasBuffer)
    (operation : Operation) (result : Except ErrorCode Unit) (key : Key) (value : List Byte) :
    Invariant (callback { s with pending := none } operation result key value) :=
  ⟨.idle rfl rfl hbuffer, hwell⟩

theorem Got.enforced_read {result : Except ErrorCode Unit}
    (hgot : Got s.store r.key r.value result value) (hwell : WellFormed s.store)
    (hrequest : s.request = some r) (hget : r.operation = .get)
    (hroom : headerLength ≤ r.value.length) (hids : s.validIds = some r.permissions)
    (hpasses : s.headerPasses checkReadPermission result value = some true) :
    Enforced s (callback { s with pending := none } .get result r.key
      (value.drop headerLength)) where
  changed key object hkey hchanged := absurd hkey hchanged
  stored key object hkey hstored := absurd hkey hstored
  read callback hcallback _ := by
    obtain rfl := head_eq_of_cons_eq hcallback
    obtain ⟨object, header, hkey, hheader, hcheck⟩ :=
      hgot.object_of_headerPasses hwell hroom hids hpasses
    refine ⟨r, hrequest, hget, rfl, .inl ⟨object, header, hkey, hheader, hcheck, ?_, ?_⟩⟩
    · rintro ⟨⟩
      cases hgot with
      | whole object' rest hkey' =>
        obtain rfl := some.inj (hkey.symm.trans hkey')
        rw [drop_append_of_le_length (hwell r.key object hkey)]
        exact prefix_append _ rest
    · rintro ⟨⟩
      cases hgot with
      | cut object' hkey' =>
        obtain rfl := some.inj (hkey.symm.trans hkey')
        rw [drop_take]
        exact take_prefix _ _

theorem enforced_denied (hrequest : s.request = some r) (hget : r.operation = .get)
    (value : List Byte) : Enforced s (callback { s with pending := none } .get (.error .nosupport)
      r.key (value.map fun _ => 0)) where
  changed key object hkey hchanged := absurd hkey hchanged
  stored key object hkey hstored := absurd hkey hstored
  read callback hcallback _ := by
    obtain rfl := head_eq_of_cons_eq hcallback
    exact ⟨r, hrequest, hget, rfl, .inr ⟨rfl, by simp⟩⟩

theorem complete_getting {s' : Capsule} (hwell : WellFormed s.store) (hrequest : s.request = some r)
    (hget : r.operation = .get) (hoperation : s.operation = some .get)
    (hids : s.validIds = some r.permissions) (hpending : s.pending = some (.get r.key r.value))
    (hbuffer : s.HasBuffer) (hcomplete : s.complete behaviour = some s') :
    Invariant s' ∧ Enforced s s' := by
  have hgot := storeGet_got s behaviour r.key r.value
  rw [complete_getting_eq hoperation hpending] at hcomplete
  obtain ⟨passes, hpasses, rfl⟩ := map_eq_some_iff.mp hcomplete
  cases passes with
  | false =>
    exact ⟨invariant_callback hwell hbuffer _ _ _ _, enforced_denied hrequest hget _⟩
  | true =>
    refine ⟨invariant_callback hwell hbuffer _ _ _ _, ?_⟩
    have hroom : headerLength ≤ r.value.length := by
      by_contra hshort
      have hnone := newFromBuf_of_lt (hgot.length_le.trans_lt (not_le.mp hshort))
      cases hcopied : copied (s.storeGet behaviour r.key r.value).1 <;>
        simp [headerPasses, hnone] at hpasses
    exact hgot.enforced_read hwell hrequest hget hroom hids hpasses

end Completions

/-! ## Runs -/

/-- The states that any requests and any behaviour of the store lead to, from
the begin, where objects in the store have a header. -/
inductive Reachable : Capsule → Prop where
  | start (buffer : List Byte) (validIds : Option StoragePermissions)
      (store : Key → Option (List Byte)) (hlength : buffer.length = headerLength)
      (hwell : WellFormed store) : Reachable
        { headerValue := some buffer
          operation := none
          value := none
          validIds
          store
          pending := none
          request := none
          callbacks := [] }
  | step {s s' : Capsule} (behaviour : Behaviour) (event : Event)
      (hreachable : Reachable s) (hstep : s.step behaviour event = some s') : Reachable s'

theorem Invariant.step {s' : Capsule} {behaviour : Behaviour} {event : Event}
    (h : Invariant s) (hstep : s.step behaviour event = some s') :
    Invariant s' ∧ Enforced s s' := by
  cases event with
  | request r =>
    obtain rfl := some.inj hstep
    refine ⟨⟨phase_make h.phase, ?_⟩, Enforced.of_store_eq make_store (.inl make_callbacks)⟩
    rw [make_store]
    exact h.wellFormed
  | complete =>
    have hcomplete : s.complete behaviour = some s' := hstep
    cases h.phase with
    | idle hoperation hpending hbuffer =>
      simp only [complete, hpending, some.injEq] at hcomplete
      exact hcomplete ▸ ⟨h, Enforced.of_store_eq rfl (.inl rfl)⟩
    | getting r hrequest hget hoperation hids hpending hbuffer =>
      exact complete_getting h.wellFormed hrequest hget hoperation hids hpending hbuffer hcomplete
    | checking r buffer hrequest hkept hoperation hids hpending hlength =>
      obtain ⟨next, hnext, hres⟩ := complete_checking hkept hoperation hpending
        behaviour h.wellFormed hrequest hids hlength
      rw [hnext] at hcomplete
      exact some.inj hcomplete ▸ hres
    | changing r storeCall hrequest hoperation hpending hauthorised hbuffer =>
      obtain ⟨next, hnext, hres⟩ := complete_changing behaviour h.wellFormed hrequest hpending
        hauthorised hbuffer
      rw [hnext] at hcomplete
      exact some.inj hcomplete ▸ hres

theorem Reachable.invariant (h : Reachable s) : Invariant s := by
  induction h with
  | start buffer validIds store hlength hwell =>
    exact ⟨.idle rfl rfl ⟨buffer, rfl, hlength⟩, hwell⟩
  | step behaviour event hreachable hstep ih => exact (ih.step hstep).1

theorem Invariant.step_eq_none_iff (h : Invariant s) (behaviour : Behaviour) (event : Event) :
    s.step behaviour event = none ↔ event = .complete ∧ ShortGet s behaviour := by
  cases event with
  | request r => simp [Capsule.step]
  | complete =>
    simp only [Capsule.step, true_and]
    cases h.phase with
    | idle hoperation hpending => simp [complete, hpending, ShortGet]
    | getting r hrequest hget hoperation hids hpending =>
      exact complete_getting_none_iff h.wellFormed hrequest hget hoperation hpending
    | checking r buffer hrequest hkept hoperation hids hpending hlength =>
      obtain ⟨next, hnext, -⟩ := complete_checking hkept hoperation hpending
        behaviour h.wellFormed hrequest hids hlength
      have hother : r.operation ≠ .get := by
        obtain h | ⟨h | h, -⟩ := hkept <;> simp [h]
      simp [hnext, ShortGet, hrequest, hother]
    | changing r storeCall hrequest hoperation hpending hauthorised hbuffer =>
      obtain ⟨next, hnext, -⟩ := complete_changing behaviour h.wellFormed hrequest hpending
        hauthorised hbuffer
      have hother : r.operation ≠ .get := by
        cases hauthorised <;> simp_all
      simp [hnext, ShortGet, hrequest, hother]

/-- In every run permissions are enforced at every step. The only step that
panics is the completion of a `get` of an object into a buffer that is shorter
than the header. -/
theorem permissions_enforced {s : Capsule} (h : Reachable s)
    (behaviour : Behaviour) (event : Event) : (s.step behaviour event = none ↔
      event = .complete ∧ ShortGet s behaviour) ∧
    ∀ s', s.step behaviour event = some s' → Enforced s s' :=
  ⟨h.invariant.step_eq_none_iff behaviour event, fun _ hstep => (h.invariant.step hstep).2⟩

/-! ### A store with one object -/

def readers (ids : List (BitVec 32)) : StoragePermissions where
  readCount := ids.length
  readPermissions := ids
  modifyCount := 0
  modifyPermissions := []
  writeId := none
  kerneluser := false

def sampleObject : List Byte := [0, 1, 0, 0, 0, 7, 0, 0, 0, 42]

def sampleCapsule : Capsule where
  headerValue := some (List.replicate headerLength 0)
  operation := none
  value := none
  validIds := none
  store := Function.update (fun _ => none) [1] (some sampleObject)
  pending := none
  request := none
  callbacks := []

def sampleBehaviour : Behaviour := ⟨none, none, [], false⟩

def sampleGet (length : ℕ) (ids : List (BitVec 32)) : Request :=
  ⟨.get, [1], List.replicate length 0, readers ids⟩

theorem sampleCapsule_reachable : Reachable sampleCapsule := by
  refine .start _ none _ (by decide) ?_
  have hempty : WellFormed fun _ => none := by simp [WellFormed]
  refine hempty.update [1] ?_
  decide

theorem sampleGet_reachable (length : ℕ) (ids : List (BitVec 32)) :
    Reachable (sampleCapsule.make sampleBehaviour (sampleGet length ids)).2 :=
  .step sampleBehaviour (.request (sampleGet length ids)) sampleCapsule_reachable rfl

theorem permissions_enforced_sample : ∃ s', Capsule.step sampleBehaviour
      (sampleCapsule.make sampleBehaviour (sampleGet 12 [7])).2 .complete = some s' ∧
      Enforced (sampleCapsule.make sampleBehaviour (sampleGet 12 [7])).2 s' :=
  ⟨_, rfl, (permissions_enforced (sampleGet_reachable 12 [7]) sampleBehaviour .complete).2 _ rfl⟩

/-- A `get` with a buffer of four bytes, by somebody who may read nothing,
panics. -/
theorem short_get_panics : Reachable (sampleCapsule.make sampleBehaviour (sampleGet 4 [])).2 ∧
      Capsule.step sampleBehaviour
        (sampleCapsule.make sampleBehaviour (sampleGet 4 [])).2 .complete = none :=
  ⟨sampleGet_reachable 4 [], rfl⟩

end TockKernel.KVStorePermissions

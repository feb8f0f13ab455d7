import TockKernel.VirtualAlarm.Clock

/-!
# The alarms of the processes

A model of `earliest_alarm` and `process_rearm_or_callback` of
`capsules/core/src/alarm.rs`. An expiration that is over stays in the
competition once its handler has returned, so the one that is kept need not lie
in the future.
-/

namespace TockKernel.AlarmDriver

open VirtualAlarm (withinRange)
open BitVec List

variable {w : ℕ} {UD R : Type}

structure Expiration (w : ℕ) where
  reference : BitVec w
  dt : BitVec w
deriving DecidableEq

namespace Expiration

def stop (e : Expiration w) : BitVec w := e.reference + e.dt

variable (now : BitVec w) (e : Expiration w)

def expired : Bool :=
  !withinRange now e.reference e.stop

def remain : BitVec w := e.stop - now

/-! ## Time -/

def elapsed : ℕ := (now - e.reference).toNat

def Pending : Prop :=
  e.elapsed now < e.dt.toNat

def timeLeft : ℕ :=
  e.dt.toNat - e.elapsed now

instance (now : BitVec w) (e : Expiration w) : Decidable (e.Pending now) :=
  inferInstanceAs (Decidable (_ < _))

theorem expired_eq_true_iff {now : BitVec w} {e : Expiration w} :
    e.expired now ↔ ¬ e.Pending now := by
  have hdt : e.stop - e.reference = e.dt := by
    rw [stop, BitVec.add_comm, BitVec.add_sub_cancel]
  rw [expired, Bool.not_eq_true', withinRange, decide_eq_false_iff_not, hdt]
  rfl

theorem toNat_remain {now : BitVec w} {e : Expiration w} (h : e.Pending now) :
    (e.remain now).toNat = e.timeLeft now := by
  have hsplit : e.remain now = e.dt - (now - e.reference) := by
    rw [remain, stop, sub_eq_add_neg, sub_eq_add_neg,
      sub_eq_add_neg, neg_add, sub_eq_add_neg, neg_neg]
    ac_rfl
  have hle : now - e.reference ≤ e.dt := le_of_lt h
  rw [hsplit, toNat_sub_of_le hle]
  rfl

end Expiration

/-! ## The earliest alarm -/

/-- An item of the iterator: the expiration, its user data, and what its
handler returns. -/
structure Item (w : ℕ) (UD R : Type) where
  exp : Expiration w
  ud : UD
  handler : Expiration w → UD → Option R

namespace Item

def key (item : Item w UD R) : Expiration w × UD := (item.exp, item.ud)

def answer (item : Item w UD R) : Option R := item.handler item.exp item.ud

end Item

variable (now : BitVec w)

def keepEarlier (earliest : Option (Expiration w × UD))
    (item : Item w UD R) : Option (Expiration w × UD) :=
  match earliest with
  | none => some item.key
  | some (e, _) =>
    if item.exp.remain now < e.remain now then some item.key else earliest

def earliestLoop (now : BitVec w) : Option (Expiration w × UD) → List (Item w UD R) →
      Except (Expiration w × UD × R) (Option (Expiration w × UD)) × List (Expiration w × UD)
  | earliest, [] => (.ok earliest, [])
  | earliest, item :: items =>
    if item.exp.expired now then
      match item.answer with
      | some retval => (.error (item.exp, item.ud, retval), [item.key])
      | none =>
        -- The expiration is over, and is kept all the same.
        let (result, calls) := earliestLoop now (keepEarlier now earliest item) items
        (result, item.key :: calls)
    else
      earliestLoop now (keepEarlier now earliest item) items

variable (items : List (Item w UD R))

def earliestAlarm :
    Except (Expiration w × UD × R) (Option (Expiration w × UD)) × List (Expiration w × UD) :=
  earliestLoop now none items

/-! ## What the loop does -/

def expiredKeys : List (Expiration w × UD) :=
  (items.filter fun item => ¬ item.exp.Pending now).map Item.key

def Continues : Prop :=
  ∀ item ∈ items, ¬ item.exp.Pending now → item.answer = none

section

variable {now : BitVec w} {items : List (Item w UD R)} {item : Item w UD R}

theorem expiredKeys_cons_pending (h : item.exp.Pending now) :
    expiredKeys now (item :: items) = expiredKeys now items := by
  rw [expiredKeys, filter_cons_of_neg (by simpa using h)]
  rfl

theorem expiredKeys_cons_expired (h : ¬ item.exp.Pending now) :
    expiredKeys now (item :: items) = item.key :: expiredKeys now items := by
  rw [expiredKeys, filter_cons_of_pos (by simpa using h)]
  rfl

theorem earliestLoop_of_continues (h : Continues now items)
    (earliest : Option (Expiration w × UD)) : earliestLoop now earliest items =
      (.ok (items.foldl (keepEarlier now) earliest), expiredKeys now items) := by
  induction items generalizing earliest with
  | nil => rfl
  | cons item items ih =>
    have hrest : Continues now items := fun other hother => h other (mem_cons_of_mem _ hother)
    by_cases hpending : item.exp.Pending now
    · have hexpired : ¬ item.exp.expired now :=
        mt Expiration.expired_eq_true_iff.mp (not_not.mpr hpending)
      rw [earliestLoop, if_neg hexpired, ih hrest, expiredKeys_cons_pending hpending]
      rfl
    have hexpired : item.exp.expired now := Expiration.expired_eq_true_iff.mpr hpending
    have hanswer : item.answer = none := h item mem_cons_self hpending
    rw [earliestLoop, if_pos hexpired, hanswer, ih hrest, expiredKeys_cons_expired hpending]
    rfl

theorem earliestLoop_of_stop {retval : R} (h : Continues now items)
    (hpending : ¬ item.exp.Pending now) (hanswer : item.answer = some retval)
    (earliest : Option (Expiration w × UD)) (after : List (Item w UD R)) :
    earliestLoop now earliest (items ++ item :: after) =
      (.error (item.exp, item.ud, retval), expiredKeys now items ++ [item.key]) := by
  have hitem : item.exp.expired now := Expiration.expired_eq_true_iff.mpr hpending
  induction items generalizing earliest with
  | nil =>
    rw [List.nil_append, earliestLoop, if_pos hitem, hanswer]
    rfl
  | cons first items ih =>
    have hrest : Continues now items := fun other hother => h other (List.mem_cons_of_mem _ hother)
    by_cases hfirst : first.exp.Pending now
    · have hexpired : ¬ first.exp.expired now :=
        mt Expiration.expired_eq_true_iff.mp (not_not.mpr hfirst)
      rw [List.cons_append, earliestLoop, if_neg hexpired, ih hrest,
        expiredKeys_cons_pending hfirst]
    have hexpired : first.exp.expired now := Expiration.expired_eq_true_iff.mpr hfirst
    have hnone : first.answer = none := h first List.mem_cons_self hfirst
    rw [List.cons_append, earliestLoop, if_pos hexpired, hnone, ih hrest,
      expiredKeys_cons_expired hfirst]
    rfl

theorem exists_first_stop (h : ¬ Continues now items) :
    ∃ before item after retval, items = before ++ item :: after ∧
      Continues now before ∧ ¬ item.exp.Pending now ∧ item.answer = some retval := by
  induction items with
  | nil => exact absurd (fun _ hmem => absurd hmem not_mem_nil) h
  | cons item items ih =>
    by_cases hstop : ¬ item.exp.Pending now ∧ item.answer ≠ none
    · obtain ⟨retval, hretval⟩ := Option.ne_none_iff_exists'.mp hstop.2
      exact ⟨[], item, items, retval, rfl, fun _ hmem => absurd hmem not_mem_nil, hstop.1, hretval⟩
    have hitem : ¬ item.exp.Pending now → item.answer = none := by
      intro hpending
      by_contra hanswer
      exact hstop ⟨hpending, hanswer⟩
    have hrest : ¬ Continues now items := by
      intro hcont
      refine h fun other hother => ?_
      rcases mem_cons.mp hother with rfl | hmem
      · exact hitem
      · exact hcont other hmem
    obtain ⟨before, stop, after, retval, rfl, hbefore, hpending, hanswer⟩ := ih hrest
    refine ⟨item :: before, stop, after, retval, rfl, ?_, hpending, hanswer⟩
    intro other hother
    rcases mem_cons.mp hother with rfl | hmem
    · exact hitem
    · exact hbefore other hmem

/-- The first of the items with the least value of `remain`. -/
def FirstLeast (now : BitVec w) (items : List (Item w UD R)) (item : Item w UD R) : Prop :=
  ∃ before after, items = before ++ item :: after ∧
    (∀ other ∈ before, item.exp.remain now < other.exp.remain now) ∧
    ∀ other ∈ after, item.exp.remain now ≤ other.exp.remain now

theorem FirstLeast.le (h : FirstLeast now items item) :
    ∀ other ∈ items, item.exp.remain now ≤ other.exp.remain now := by
  obtain ⟨_, _, rfl, hbefore, hafter⟩ := h
  intro other hother
  rcases mem_append.mp hother with hmem | hmem
  · exact BitVec.le_of_lt (hbefore other hmem)
  rcases mem_cons.mp hmem with rfl | hmem
  · exact BitVec.le_refl _
  · exact hafter other hmem

theorem FirstLeast.mem (h : FirstLeast now items item) : item ∈ items := by
  obtain ⟨-, -, rfl, -, -⟩ := h
  exact mem_append_right _ mem_cons_self

theorem foldl_keepEarlier (now : BitVec w) (hitems : items ≠ []) :
    ∃ item, FirstLeast now items item ∧ items.foldl (keepEarlier now) none = some item.key := by
  induction items using reverseRecOn with
  | nil => exact absurd rfl hitems
  | append_singleton items last ih =>
    rw [foldl_append, foldl_cons]
    by_cases hempty : items = []
    · subst hempty
      exact ⟨last, ⟨[], [], rfl, fun _ hmem => absurd hmem not_mem_nil,
        fun _ hmem => absurd hmem not_mem_nil⟩, rfl⟩
    obtain ⟨item, hitem, hfold⟩ := ih hempty
    rw [hfold]
    by_cases hlt : last.exp.remain now < item.exp.remain now
    · refine ⟨last, ⟨items, [], rfl, ?_, fun _ hmem => absurd hmem not_mem_nil⟩, if_pos hlt⟩
      intro other hother
      exact Nat.lt_of_lt_of_le hlt (hitem.le other hother)
    obtain ⟨before, after, rfl, hbefore, hafter⟩ := hitem
    refine ⟨item, ⟨before, after ++ [last], by simp, hbefore, ?_⟩, if_neg hlt⟩
    intro other hother
    rcases mem_append.mp hother with hmem | hmem
    · exact hafter other hmem
    · rw [mem_singleton.mp hmem]
      exact BitVec.not_lt.mp hlt

/-! ## The next pending alarm -/

/-- What `earliest_alarm` is for. The handlers of expirations that are over are
called, in order, up to the first that asks to stop; if none does, the result is
a pending expiration with the least time left. -/
def PicksNext (now : BitVec w) (items : List (Item w UD R)) :
    Except (Expiration w × UD × R) (Option (Expiration w × UD)) × List (Expiration w × UD) → Prop
  | (.error (exp, ud, retval), calls) => ∃ before item after,
      items = before ++ item :: after ∧ Continues now before ∧
      ¬ item.exp.Pending now ∧ item.answer = some retval ∧
      (exp, ud) = item.key ∧ calls = expiredKeys now before ++ [item.key]
  | (.ok none, calls) => Continues now items ∧
      calls = expiredKeys now items ∧ ∀ item ∈ items, ¬ item.exp.Pending now
  | (.ok (some key), calls) => Continues now items ∧
      calls = expiredKeys now items ∧ ∃ item ∈ items, key = item.key ∧
      item.exp.Pending now ∧ ∀ other ∈ items, other.exp.Pending now →
        item.exp.timeLeft now ≤ other.exp.timeLeft now

/-- A handler asks to stop, there is no expiration, or some pending expiration
has a value of `remain` below those of all that are over (later ones may have
the same). -/
def PendingComesFirst (now : BitVec w) (items : List (Item w UD R)) : Prop :=
  ¬ Continues now items ∨ items = [] ∨ ∃ before item after,
    items = before ++ item :: after ∧ item.exp.Pending now ∧
    (∀ other ∈ before, ¬ other.exp.Pending now → item.exp.remain now < other.exp.remain now) ∧
    ∀ other ∈ after, ¬ other.exp.Pending now → item.exp.remain now ≤ other.exp.remain now

theorem picksNext_of_stop (h : ¬ Continues now items) :
    PicksNext now items (earliestAlarm now items) := by
  obtain ⟨before, item, after, _, rfl, hbefore, hpending, hanswer⟩ := exists_first_stop h
  rw [earliestAlarm, earliestLoop_of_stop hbefore hpending hanswer]
  exact ⟨before, item, after, rfl, hbefore, hpending, hanswer, rfl, rfl⟩

theorem FirstLeast.pending_iff (h : FirstLeast now items item) :
    item.exp.Pending now ↔ ∃ before winner after,
      items = before ++ winner :: after ∧ winner.exp.Pending now ∧
      (∀ other ∈ before, ¬ other.exp.Pending now → winner.exp.remain now < other.exp.remain now) ∧
      ∀ other ∈ after, ¬ other.exp.Pending now → winner.exp.remain now ≤ other.exp.remain now := by
  constructor
  · intro hpending
    obtain ⟨before, after, hitems, hbefore, hafter⟩ := h
    exact ⟨before, item, after, hitems, hpending, fun other hother _ => hbefore other hother,
      fun other hother _ => hafter other hother⟩
  · rintro ⟨before, winner, after, hitems, hwinner, hbefore, hafter⟩
    by_contra hpending
    obtain ⟨earlier, later, hsplit, hearlier, hlater⟩ := h
    have hleast : item.exp.remain now ≤ winner.exp.remain now := by
      have hmem : winner ∈ items := by
        rw [hitems]
        exact mem_append_right _ mem_cons_self
      exact FirstLeast.le ⟨earlier, later, hsplit, hearlier, hlater⟩ winner hmem
    -- Compare where the two stand in the list.
    rw [hitems] at hsplit
    rcases append_eq_append_iff.mp hsplit with
      ⟨middle, rfl, hrest⟩ | ⟨middle, rfl, hrest⟩
    · cases middle with
      | nil =>
        have hsame : winner = item := (cons.inj hrest).1
        exact hpending (hsame ▸ hwinner)
      | cons first middle =>
        obtain ⟨rfl, hafterEq⟩ := cons.inj hrest
        have hlt := hearlier winner (mem_append_right _ mem_cons_self)
        have hle := hafter item (hafterEq ▸ mem_append_right _ mem_cons_self) hpending
        exact BitVec.not_lt.mpr hle hlt
    cases middle with
    | nil =>
      have hsame : item = winner := (cons.inj hrest).1
      exact hpending (hsame ▸ hwinner)
    | cons first middle =>
      have hfirst : item = first := (cons.inj hrest).1
      have hlt := hbefore item (mem_append_right _ (hfirst ▸ mem_cons_self)) hpending
      exact BitVec.not_lt.mpr hleast hlt

/-- The result is the next alarm exactly if a pending one has the first place by `remain`. -/
theorem earliest_alarm_picks_next_iff (now : BitVec w) (items : List (Item w UD R)) :
    PicksNext now items (earliestAlarm now items) ↔ PendingComesFirst now items := by
  by_cases hcont : Continues now items
  swap
  · exact iff_of_true (picksNext_of_stop hcont) (.inl hcont)
  rw [earliestAlarm, earliestLoop_of_continues hcont]
  by_cases hempty : items = []
  · subst hempty
    exact iff_of_true ⟨hcont, rfl, fun _ hmem => absurd hmem not_mem_nil⟩ (.inr (.inl rfl))
  obtain ⟨item, hitem, hfold⟩ := foldl_keepEarlier now hempty
  rw [hfold]
  have hcondition : PendingComesFirst now items ↔ item.exp.Pending now := by
    rw [hitem.pending_iff]
    constructor
    · rintro (hstop | hnil | hwinner)
      · exact absurd hcont hstop
      · exact absurd hnil hempty
      · exact hwinner
    · exact fun hwinner => .inr (.inr hwinner)
  rw [hcondition]
  constructor
  · rintro ⟨-, -, winner, -, hkey, hwinner, -⟩
    have hexp : item.exp = winner.exp := congrArg Prod.fst hkey
    exact hexp ▸ hwinner
  · intro hpending
    refine ⟨hcont, rfl, item, hitem.mem, rfl, hpending, ?_⟩
    intro other hother hotherPending
    rw [← Expiration.toNat_remain hpending, ← Expiration.toNat_remain hotherPending]
    exact hitem.le other hother

end

/-- At time 20 the only alarm has been over for five ticks. Its handler is
called, and it is returned as the next one. -/
theorem earliest_alarm_keeps_expired :
    let alarm : Item 32 ℕ Unit := ⟨⟨5, 10⟩, 7, fun _ _ => none⟩
    ¬ alarm.exp.Pending 20 ∧
    earliestAlarm 20 [alarm] = (.ok (some (⟨5, 10⟩, 7)), [(⟨5, 10⟩, 7)]) ∧
    ¬ PicksNext 20 [alarm] (earliestAlarm 20 [alarm]) := by
  intro alarm
  have hover : ¬ alarm.exp.Pending 20 := by decide
  have hres : earliestAlarm 20 [alarm] =
      (.ok (some (⟨5, 10⟩, 7)), [(⟨5, 10⟩, 7)]) := by decide +kernel
  refine ⟨hover, hres, ?_⟩
  rw [hres]
  rintro ⟨-, -, _, hitem, -, hpending, -⟩
  rw [mem_singleton.mp hitem] at hpending
  exact hover hpending

end TockKernel.AlarmDriver

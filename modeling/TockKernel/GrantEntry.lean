import TockKernel.Arithmetic
import TockKernel.GrantOps

/-!
# Entering grants

A grant may be entered by a capsule, which runs a closure on it, and by the
kernel, which stores upcalls and buffers in it. Closures may enter further
grants and try to enter the same one again. Such nested calls are run one step
at a time, with the references that exist on a stack, and the marks in the grant
pointer table are compared with that stack.
-/

namespace TockKernel

open ByteMemory Function ProcessStandard Option List

/-! ## Calls -/

/-- What a capsule or the kernel does with the grants of a process. -/
inductive GrantCall where
  /-- `Grant::enter`, which allocates the grant if need be, followed by
  `ProcessGrant::enter` or `try_enter`. -/
  | enter (grantNum : Usize) (panicOnReenter : Bool) (closure : List GrantCall)
  /-- One round of `Grant::each` or `Grant::iter`, which skips a process
  without the grant. -/
  | each (grantNum : Usize) (panicOnReenter : Bool) (closure : List GrantCall)
  /-- `subscribe`, `allow_ro` and `allow_rw`. -/
  | swap (kind : SavedKind) (driverNum num : Usize) (new : Usize × Usize)
  /-- What a closure does with the grant it was called on. -/
  | act (action : GrantAction)

/-- What is left to do. A `ProcessGrant` is a pending access. -/
inductive PendingCall where
  | call (call : GrantCall)
  | access (grantNum : Usize) (panicOnReenter : Bool) (closure : List GrantCall)
  | exchange (kind : SavedKind) (num : Usize) (new : Usize × Usize)

/-- A reference to the memory of a grant: an `EnteredGrantKernelManagedLayout`
that has not been dropped. -/
structure EnteredGrant where
  layout : KernelManagedLayout
  /-- Made in `ProcessGrant::new`, to initialise a new grant. -/
  initialises : Bool
  /-- What is left to do once it is dropped. -/
  resume : List PendingCall

def EnteredGrant.grantNum (entered : EnteredGrant) : Usize :=
  entered.layout.grantNum

def EnteredGrant.base (entered : EnteredGrant) : Usize :=
  entered.layout.countersPtr

structure GrantExecution (B : Board) where
  process : ProcessStandard B
  entered : List EnteredGrant
  todo : List PendingCall
  /-- For each grant, the pointer that `allocate_grant` stored for it; the
  kernel has no such record. -/
  allocatedAt : Usize → Option Usize

namespace ProcessStandard

variable {B : Board}

def storedPointer (p : ProcessStandard B) (grantNum : Usize) : Option Usize :=
  p.grantPointers[grantNum.toNat]?.map (·.grantPtr)

end ProcessStandard

namespace GrantExecution

variable {B : Board} (grants : ℕ → GrantDecl)

def start (p : ProcessStandard B) : GrantExecution B :=
  ⟨p, [], [], fun _ => none⟩

variable (s : GrantExecution B)

def enteredNums : List Usize :=
  s.entered.map (·.grantNum)

/-- The end of `ProcessGrant::new`: write `T::default()` to a new grant. -/
def writeDefault (decl : GrantDecl) (grantPtr : Usize)
    (p : ProcessStandard B) : ProcessStandard B :=
  { p with
    memory := writeBytes p.memory (decl.offsetOfGrantDataT grantPtr)
      decl.grantTSize decl.grantTDefault }

def drop (reference : EnteredGrant) (others : List EnteredGrant) : GrantExecution B :=
  let p := s.process.leaveGrant reference.grantNum
  { s with
    process :=
      if reference.initialises then
        writeDefault (grants reference.grantNum.toNat) reference.base p
      else p
    entered := others
    todo := reference.resume }

/-- `ProcessGrant::new` for a grant that is not allocated yet. -/
def allocate (grantNum : Usize) (panicOnReenter : Bool) (closure : List GrantCall)
    (rest : List PendingCall) : GrantExecution B :=
  let decl := grants grantNum.toNat
  match s.process.allocateGrant grantNum decl.driverNum decl.grantSize decl.grantAlign with
  | (.error (), p) => { s with process := p, todo := rest }
  | (.ok (), p) =>
    let s := { s with
      allocatedAt := Function.update s.allocatedAt grantNum (p.storedPointer grantNum) }
    match p.enterGrant grantNum with
    | (.error _, p) => { s with process := p, todo := rest }
    | (.ok grantPtr, p) =>
      { s with
        process := { p with
          memory := KernelManagedLayout.initializeFromCounts p.memory grantPtr decl }
        entered := {
            layout := .fromCounts grantPtr grantNum decl
            initialises := true
            resume := .access grantNum panicOnReenter closure :: rest } ::
          s.entered
        todo := [] }

def access (grantNum : Usize) (panicOnReenter : Bool)
    (closure : List GrantCall) (rest : List PendingCall) : Except Panic (GrantExecution B) :=
  match s.process.enterGrant grantNum with
  | (.error _, p) =>
    if panicOnReenter then .error .grantReentered
    else .ok { s with process := p, todo := rest }
  | (.ok grantPtr, p) =>
    .ok { s with
      process := p
      entered := {
          layout := .readFromBase p.memory grantPtr grantNum
          initialises := false
          resume := rest } :: s.entered
      todo := closure.map .call }

/-- `enter_grant_kernel_managed`, followed by an exchange. -/
def swap (kind : SavedKind) (driverNum num : Usize)
    (new : Usize × Usize) (rest : List PendingCall) : GrantExecution B :=
  match s.process.enterGrantKernelManaged driverNum with
  | (.error _, p) => { s with process := p, todo := rest }
  | (.ok layout, p) =>
    { s with
      process := p
      entered := {
          layout := layout
          initialises := false
          resume := rest } :: s.entered
      todo := [.exchange kind num new] }

def use (rest : List PendingCall)
    (f : KernelManagedLayout → ProcessStandard B → ProcessStandard B) : GrantExecution B :=
  match s.entered with
  | [] => { s with todo := rest }
  | reference :: _ =>
    { s with process := f reference.layout s.process, todo := rest }

def exchange (kind : SavedKind) (num : Usize) (new : Usize × Usize)
    (layout : KernelManagedLayout) (p : ProcessStandard B) : ProcessStandard B :=
  if num < layout.number p.memory kind then
    { p with memory := writePair p.memory (layout.slot kind num) new }
  else
    p

def perform (rest : List PendingCall) :
    GrantCall → Except Panic (GrantExecution B)
  | .enter grantNum panicOnReenter closure =>
    match s.process.grantIsAllocated grantNum with
    | none => .ok { s with todo := rest }
    | some true => .ok { s with
        todo := .access grantNum panicOnReenter closure :: rest }
    | some false => .ok (s.allocate grants grantNum panicOnReenter closure rest)
  | .each grantNum panicOnReenter closure =>
    if s.process.grantIsAllocated grantNum = some true then
      .ok { s with todo := .access grantNum panicOnReenter closure :: rest }
    else
      .ok { s with todo := rest }
  | .swap kind driverNum num new => .ok (s.swap kind driverNum num new rest)
  | .act action => .ok (s.use rest fun layout p =>
    action.apply (grants layout.grantNum.toNat) layout p)

def step : Except Panic (GrantExecution B) :=
  match s.todo with
  | [] =>
    match s.entered with
    | [] => .ok s
    | reference :: others => .ok (s.drop grants reference others)
  | .call call :: rest => s.perform grants rest call
  | .access grantNum panicOnReenter closure :: rest =>
    s.access grantNum panicOnReenter closure rest
  | .exchange kind num new :: rest => .ok (s.use rest (exchange kind num new))

/-- The steps within one incarnation: those of pending calls, new calls at any
moment, and everything else, which does not touch the table. -/
inductive Step : GrantExecution B → GrantExecution B → Prop
  | run {s s' : GrantExecution B} : s.step grants = .ok s' → Step s s'
  | call (s : GrantExecution B) (calls : List GrantCall) :
      Step s { s with todo := calls.map .call ++ s.todo }
  | other (s : GrantExecution B) {p : ProcessStandard B} :
      p.grantPointers = s.process.grantPointers → p.isRunning = true →
      0 < p.appBreak.toNat → Step s { s with process := p }

def Reaches : GrantExecution B → GrantExecution B → Prop :=
  Relation.ReflTransGen (Step grants)

end GrantExecution

/-! ## The table -/

namespace ProcessStandard

variable {B : Board} {p p' : ProcessStandard B} {grantNum ptr : Usize}

theorem storedPointer_set {entry : GrantPointerEntry}
    (hlt : grantNum.toNat < p.grantPointers.length) :
    (p.withTable (p.grantPointers.set grantNum.toNat entry)).storedPointer =
      update p.storedPointer grantNum (some entry.grantPtr) := by
  funext n
  unfold storedPointer
  rw [withTable_grantPointers]
  by_cases hsame : n = grantNum
  · subst hsame
    rw [getElem?_set_self hlt, update_self]
    rfl
  have hne : grantNum.toNat ≠ n.toNat := fun htoNat => hsame (BitVec.eq_of_toNat_eq htoNat.symm)
  rw [getElem?_set_ne hne, update_of_ne hsame]

theorem storedPointer_of_getElem? {entry : GrantPointerEntry}
    (hentry : p.grantPointers[grantNum.toNat]? = some entry) :
    p.storedPointer grantNum = some entry.grantPtr := by
  rw [storedPointer, hentry]
  rfl

theorem exists_entry (hstored : p.storedPointer grantNum = some ptr) :
    ∃ entry, p.grantPointers[grantNum.toNat]? = some entry ∧ entry.grantPtr = ptr :=
  map_eq_some_iff.mp hstored

theorem enterGrant_storedPointer (henter : p.enterGrant grantNum = (.ok ptr, p')) :
    p.storedPointer grantNum = some ptr ∧ p'.storedPointer =
        update p.storedPointer grantNum (some (ptr ||| 1)) := by
  obtain ⟨-, _, hentry, rfl, -, rfl⟩ := enterGrant_ok henter
  obtain ⟨hlt, -⟩ := List.getElem?_eq_some_iff.mp hentry
  exact ⟨storedPointer_of_getElem? hentry, storedPointer_set hlt⟩

section

variable (hrunning : p.isRunning = true) (hstored : p.storedPointer grantNum = some ptr)
include hrunning hstored

theorem leaveGrant_storedPointer : (p.leaveGrant grantNum).storedPointer =
      update p.storedPointer grantNum (some (ptr &&& ~~~1)) := by
  obtain ⟨_, hentry, rfl⟩ := exists_entry hstored
  obtain ⟨hlt, -⟩ := List.getElem?_eq_some_iff.mp hentry
  rw [leaveGrant_eq hrunning hentry]
  exact storedPointer_set hlt

theorem enterGrant_of_marked (hmarked : ptr &&& 1 = 1) :
    p.enterGrant grantNum = (.error .alreadyInUse, p) := by
  obtain ⟨_, hentry, rfl⟩ := exists_entry hstored
  simp only [enterGrant, hrunning, hentry, hmarked, Bool.not_true,
    Bool.false_eq_true, if_false, if_true]

end

theorem grantIsAllocated_iff_storedPointer {allocated : Bool} (hrunning : p.isRunning) :
    p.grantIsAllocated grantNum = some allocated ↔ ∃ ptr, p.storedPointer grantNum = some ptr ∧
        (ptr != 0) = allocated := by
  rw [grantIsAllocated_eq_some]
  constructor
  · rintro ⟨-, entry, hentry, hallocated⟩
    exact ⟨entry.grantPtr, storedPointer_of_getElem? hentry, hallocated⟩
  · rintro ⟨ptr, hstored, hallocated⟩
    obtain ⟨entry, hentry, rfl⟩ := exists_entry hstored
    exact ⟨hrunning, entry, hentry, hallocated⟩

theorem or_one_and_one (x : Usize) : (x ||| 1) &&& 1 = 1 := by
  apply BitVec.eq_of_getLsbD_eq
  intro i hi
  simp only [BitVec.getLsbD_and, BitVec.getLsbD_or]
  cases x.getLsbD i <;> simp

theorem or_one_ne_zero (x : Usize) : x ||| 1 ≠ 0 := by
  intro hzero
  have hone := or_one_and_one x
  rw [hzero] at hone
  exact absurd hone (by decide)

end ProcessStandard

/-- A grant that was allocated at `base` is marked exactly if it is among those
`entered`, and every other pointer is null. -/
structure TableMatches {B : Board} (p : ProcessStandard B)
    (entered : List Usize) (allocatedAt : Usize → Option Usize) : Prop where
  allocated : ∀ n base, allocatedAt n = some base → base ≠ 0 ∧ ¬ base &&& 1 = 1 ∧
      p.storedPointer n = some (if n ∈ entered then base ||| 1 else base)
  unallocated : ∀ n, allocatedAt n = none → ∀ ptr, p.storedPointer n = some ptr → ptr = 0

namespace TableMatches

variable {B : Board} {p p' : ProcessStandard B} {entered : List Usize}
  {allocatedAt : Usize → Option Usize}

theorem congr (h : TableMatches p entered allocatedAt)
    (hsame : p'.storedPointer = p.storedPointer) : TableMatches p' entered allocatedAt :=
  ⟨by rw [hsame]; exact h.allocated, by rw [hsame]; exact h.unallocated⟩

variable {base n ptr : Usize}

theorem enterGrant_entered (h : TableMatches p entered allocatedAt)
    (hrunning : p.isRunning) (hbase : allocatedAt n = some base) (hn : n ∈ entered) :
    p.enterGrant n = (.error .alreadyInUse, p) := by
  obtain ⟨-, -, hstored⟩ := h.allocated n base hbase
  rw [if_pos hn] at hstored
  exact enterGrant_of_marked hrunning hstored (or_one_and_one base)

theorem enter (h : TableMatches p entered allocatedAt) (hbase : allocatedAt n = some base)
    (henter : p.enterGrant n = (.ok ptr, p')) : n ∉ entered ∧ ptr = base ∧
      TableMatches p' (n :: entered) allocatedAt := by
  obtain ⟨hrunning, -⟩ := enterGrant_ok henter
  have hnew : n ∉ entered := by
    intro hn
    rw [h.enterGrant_entered hrunning hbase hn] at henter
    cases henter
  obtain ⟨hstored, htable⟩ := enterGrant_storedPointer henter
  obtain ⟨-, -, hbefore⟩ := h.allocated n base hbase
  rw [if_neg hnew, hstored, some.injEq] at hbefore
  subst hbefore
  refine ⟨hnew, rfl, ?_, ?_⟩
  · intro m base hm
    obtain ⟨hnonzero', heven', hbefore⟩ := h.allocated m base hm
    refine ⟨hnonzero', heven', ?_⟩
    rw [htable]
    by_cases hsame : m = n
    · subst hsame
      rw [hbase, some.injEq] at hm
      rw [update_self, if_pos mem_cons_self, hm]
    · rw [update_of_ne hsame, hbefore]
      simp [hsame]
  · intro m hm stored hstored'
    have hsame : m ≠ n := by
      rintro rfl
      rw [hbase] at hm
      cases hm
    rw [htable, update_of_ne hsame] at hstored'
    exact h.unallocated m hm stored hstored'

theorem leave (h : TableMatches p (n :: entered) allocatedAt)
    (hrunning : p.isRunning) (hbase : allocatedAt n = some base) (hn : n ∉ entered) :
    TableMatches (p.leaveGrant n) entered allocatedAt := by
  obtain ⟨-, heven, hstored⟩ := h.allocated n base hbase
  rw [if_pos mem_cons_self] at hstored
  have htable := leaveGrant_storedPointer hrunning hstored
  rw [clear_entered_bit heven] at htable
  constructor
  · intro m base' hm
    obtain ⟨hnonzero, heven', hbefore⟩ := h.allocated m base' hm
    refine ⟨hnonzero, heven', ?_⟩
    rw [htable]
    by_cases hsame : m = n
    · subst hsame
      rw [hbase] at hm
      rw [update_self, if_neg hn, hm]
    · rw [update_of_ne hsame, hbefore]
      simp [hsame]
  · intro m hm ptr hptr
    have hsame : m ≠ n := by
      rintro rfl
      rw [hbase] at hm
      cases hm
    rw [htable, update_of_ne hsame] at hptr
    exact h.unallocated m hm ptr hptr

section

variable (h : TableMatches p entered allocatedAt)
include h

theorem allocatedAt_eq_none (hnull : p.storedPointer n = some 0) : allocatedAt n = none := by
  cases hbase : allocatedAt n with
  | none => rfl
  | some base =>
    obtain ⟨hnonzero, -, hstored⟩ := h.allocated n base hbase
    rw [hnull, some.injEq] at hstored
    split_ifs at hstored
    · exact absurd hstored.symm (or_one_ne_zero base)
    · exact absurd hstored.symm hnonzero

theorem exists_base (hstored : p.storedPointer n = some ptr) (hptr : ptr ≠ 0) :
    ∃ base, allocatedAt n = some base := by
  cases hbase : allocatedAt n with
  | none => exact absurd (h.unallocated n hbase ptr hstored) hptr
  | some base => exact ⟨base, rfl⟩

theorem allocate (hn : n ∉ entered) (hnonzero : ptr ≠ 0) (heven : ¬ ptr &&& 1 = 1)
    (htable : p'.storedPointer = update p.storedPointer n (some ptr)) : TableMatches p' entered
      (update allocatedAt n (some ptr)) := by
  constructor
  · intro m base hm
    by_cases hsame : m = n
    · subst hsame
      rw [update_self, some.injEq] at hm
      subst hm
      rw [htable, update_self, if_neg hn]
      exact ⟨hnonzero, heven, rfl⟩
    rw [update_of_ne hsame] at hm
    rw [htable, update_of_ne hsame]
    exact h.allocated m base hm
  · intro m hm stored hstored
    have hsame : m ≠ n := by
      rintro rfl
      rw [update_self] at hm
      cases hm
    rw [update_of_ne hsame] at hm
    rw [htable, update_of_ne hsame] at hstored
    exact h.unallocated m hm stored hstored

end

end TableMatches

namespace ProcessStandard

variable {B : Board} {p p' : ProcessStandard B}

theorem enterGrantKernelManaged_ok {driverNum : Usize} {layout : KernelManagedLayout}
    (hok : p.enterGrantKernelManaged driverNum = (.ok layout, p')) :
    ∃ grantNum ptr, p.lookupGrantFromDriverNum driverNum = .ok grantNum ∧
      p.grantIsAllocated grantNum = some true ∧ p.enterGrant grantNum = (.ok ptr, p') ∧
      layout = .readFromBase p'.memory ptr grantNum := by
  unfold enterGrantKernelManaged at hok
  cases hlookup : p.lookupGrantFromDriverNum driverNum with
  | error error =>
    rw [hlookup] at hok
    cases hok
  | ok grantNum =>
    rw [hlookup] at hok
    simp only at hok
    split at hok
    · cases hok
    · cases hok
    case h_3 hallocated =>
      rcases henter : p.enterGrant grantNum with ⟨error | ptr, q⟩
      · rw [henter] at hok
        cases hok
      rw [henter] at hok
      cases hok
      exact ⟨grantNum, ptr, rfl, hallocated, henter, rfl⟩

theorem enterGrantKernelManaged_error {driverNum : Usize} {error : ErrorCode}
    (herror : p.enterGrantKernelManaged driverNum = (.error error, p')) : p' = p := by
  rcases p.enterGrantKernelManaged_cases driverNum with
    ⟨_, herror'⟩ | ⟨_, _, _, _, _, hok⟩
  · rw [herror'] at herror
    cases herror
    rfl
  · rw [hok] at herror
    cases herror

variable {grantNum : Usize}

theorem enterGrant_frame {ptr : Usize} (henter : p.enterGrant grantNum = (.ok ptr, p')) :
    p'.isRunning = p.isRunning ∧ p'.appBreak = p.appBreak := by
  obtain ⟨-, _, -, -, -, rfl⟩ := enterGrant_ok henter
  exact ⟨rfl, rfl⟩

theorem leaveGrant_frame (p : ProcessStandard B) (grantNum : Usize) :
    (p.leaveGrant grantNum).isRunning = p.isRunning ∧
      (p.leaveGrant grantNum).appBreak = p.appBreak := by
  unfold leaveGrant
  split_ifs
  · exact ⟨rfl, rfl⟩
  · split <;> exact ⟨rfl, rfl⟩

theorem allocateGrant_storedPointer {decl : GrantDecl}
    (hfree : p.grantIsAllocated grantNum = some false) (hpos : 0 < p.appBreak.toNat)
    (hok : p.allocateGrant grantNum decl.driverNum decl.grantSize decl.grantAlign = (.ok (), p')) :
    p'.isRunning = p.isRunning ∧ p'.appBreak = p.appBreak ∧ ∃ ptr, ptr ≠ 0 ∧ ¬ ptr &&& 1 = 1 ∧
        p'.storedPointer = update p.storedPointer grantNum (some ptr) := by
  rcases allocateGrant_outcome decl.driverNum decl.grantSize decl.grantAlign
    hfree with ⟨config, herror⟩ | ⟨config, -, hlow, hhigh, hok'⟩
  · rw [herror] at hok
    cases hok
  rw [hok'] at hok
  cases hok
  obtain ⟨-, _, hentry, -⟩ := grantIsAllocated_eq_some.mp hfree
  obtain ⟨hlt, -⟩ := List.getElem?_eq_some_iff.mp hentry
  refine ⟨rfl, rfl, p.nextGrantAddress decl.grantSize decl.grantAlign, ?_,
    not_entered_of_even ((show 2 ∣ 4 by decide).trans
      (four_dvd_nextGrantAddress decl hhigh)), storedPointer_set hlt⟩
  intro hnull
  rw [hnull, BitVec.le_def] at hlow
  exact absurd hlow (by simpa using hpos.ne')

theorem allocateGrant_error_frame {decl : GrantDecl}
    (hfree : p.grantIsAllocated grantNum = some false)
    (herror : p.allocateGrant grantNum decl.driverNum decl.grantSize decl.grantAlign =
      (.error (), p')) :
    p'.isRunning = p.isRunning ∧ p'.appBreak = p.appBreak ∧ p'.storedPointer = p.storedPointer := by
  rcases allocateGrant_outcome decl.driverNum decl.grantSize decl.grantAlign
    hfree with ⟨config, herror'⟩ | ⟨config, -, -, -, hok⟩
  · rw [herror'] at herror
    cases herror
    exact ⟨rfl, rfl, rfl⟩
  · rw [hok] at herror
    cases herror

end ProcessStandard

/-! ## One step -/

/-- A `ProcessGrant` stands for a grant that is allocated. -/
def PendingCall.Ready (allocatedAt : Usize → Option Usize) : PendingCall → Prop
  | .access grantNum _ _ => ∃ base, allocatedAt grantNum = some base
  | .call _ | .exchange _ _ _ => True

/-- References are to distinct grants and point to where these were allocated,
and the table has marks for exactly these grants. -/
structure GrantExecution.Exclusive {B : Board} (s : GrantExecution B) : Prop where
  running : s.process.isRunning = true
  appBreak_pos : 0 < s.process.appBreak.toNat
  nodup : s.enteredNums.Nodup
  base_eq : ∀ reference ∈ s.entered, s.allocatedAt reference.grantNum = some reference.base
  table : TableMatches s.process s.enteredNums s.allocatedAt
  todo_ready : ∀ call ∈ s.todo, call.Ready s.allocatedAt
  resume_ready : ∀ reference ∈ s.entered, ∀ call ∈ reference.resume, call.Ready s.allocatedAt

namespace GrantExecution

variable {B : Board} {grants : ℕ → GrantDecl} {s s' : GrantExecution B}
  {rest : List PendingCall}

namespace Exclusive

variable {todo : List PendingCall} {grantNum : Usize}

section

variable (h : s.Exclusive)
include h

theorem frame {p : ProcessStandard B} (hrunning : p.isRunning) (hpos : 0 < p.appBreak.toNat)
    (htable : p.storedPointer = s.process.storedPointer)
    (htodo : ∀ call ∈ todo, call.Ready s.allocatedAt) :
    Exclusive { s with process := p, todo := todo } :=
  ⟨hrunning, hpos, h.nodup, h.base_eq, h.table.congr htable, htodo, h.resume_ready⟩

theorem skip (htodo : ∀ call ∈ todo, call.Ready s.allocatedAt) :
    Exclusive { s with todo := todo } :=
  h.frame h.running h.appBreak_pos rfl htodo

theorem enter {base ptr : Usize} {p : ProcessStandard B}
    (hbase : s.allocatedAt grantNum = some base)
    (henter : s.process.enterGrant grantNum = (.ok ptr, p))
    {reference : EnteredGrant} (hnum : reference.grantNum = grantNum) (hptr : reference.base = ptr)
    (hresume : ∀ call ∈ reference.resume, call.Ready s.allocatedAt)
    (htodo : ∀ call ∈ todo, call.Ready s.allocatedAt) :
    Exclusive { s with
      process := p, entered := reference :: s.entered, todo := todo } := by
  obtain ⟨hnew, rfl, htable⟩ := h.table.enter hbase henter
  obtain ⟨hrunning, hbreak⟩ := enterGrant_frame henter
  subst hnum hptr
  refine ⟨hrunning.trans h.running, hbreak ▸ h.appBreak_pos,
    nodup_cons.mpr ⟨hnew, h.nodup⟩, ?_, htable, htodo, ?_⟩
  · intro other hother
    rcases mem_cons.mp hother with rfl | hother
    · exact hbase
    · exact h.base_eq other hother
  · intro other hother
    rcases mem_cons.mp hother with rfl | hother
    · exact hresume
    · exact h.resume_ready other hother

theorem drop {reference : EnteredGrant} {others : List EnteredGrant}
    (hentered : s.entered = reference :: others) : (s.drop grants reference others).Exclusive := by
  have hnums : s.enteredNums = reference.grantNum :: others.map (·.grantNum) := by
    rw [enteredNums, hentered, map_cons]
  have hmem : ∀ other ∈ others, other ∈ s.entered := by
    intro other hother
    rw [hentered]
    exact mem_cons_of_mem _ hother
  have hreference : reference ∈ s.entered := by
    rw [hentered]
    exact mem_cons_self
  have hnodup := h.nodup
  have htable := h.table
  rw [hnums] at hnodup htable
  obtain ⟨hnew, hnodup⟩ := nodup_cons.mp hnodup
  have hleft := htable.leave h.running (h.base_eq reference hreference) hnew
  obtain ⟨hrunning, hbreak⟩ := s.process.leaveGrant_frame reference.grantNum
  have hleave : Exclusive { s with
      process := s.process.leaveGrant reference.grantNum
      entered := others
      todo := reference.resume } :=
    ⟨hrunning.trans h.running, hbreak ▸ h.appBreak_pos, hnodup,
      fun other hother => h.base_eq other (hmem other hother), hleft,
      h.resume_ready reference hreference,
      fun other hother => h.resume_ready other (hmem other hother)⟩
  unfold GrantExecution.drop
  split_ifs
  · exact hleave.frame hleave.running hleave.appBreak_pos rfl hleave.todo_ready
  · exact hleave

theorem rest_ready {call : PendingCall} (htodo : s.todo = call :: rest) :
    ∀ other ∈ rest, other.Ready s.allocatedAt := by
  intro other hother
  apply h.todo_ready
  rw [htodo]
  exact mem_cons_of_mem _ hother

variable (hrest : ∀ call ∈ rest, call.Ready s.allocatedAt)
include hrest

theorem allocate {panicOnReenter : Bool} {closure : List GrantCall}
    (hfree : s.process.grantIsAllocated grantNum = some false) :
    (s.allocate grants grantNum panicOnReenter closure rest).Exclusive ∧
      ∀ n base, s.allocatedAt n = some base →
        (s.allocate grants grantNum panicOnReenter closure rest).allocatedAt n = some base := by
  obtain ⟨ptr, hstored, hnull⟩ := (grantIsAllocated_iff_storedPointer h.running).mp hfree
  obtain rfl : ptr = 0 := by simpa using hnull
  have hnone := h.table.allocatedAt_eq_none hstored
  have hkeeps : ∀ ptr n base, s.allocatedAt n = some base →
      update s.allocatedAt grantNum ptr n = some base := by
    intro ptr n base hn
    rw [update_of_ne ?_]
    · exact hn
    · rintro rfl
      rw [hnone] at hn
      cases hn
  have hready : ∀ ptr call, PendingCall.Ready s.allocatedAt call →
      call.Ready (update s.allocatedAt grantNum ptr) := by
    intro ptr call hcall
    cases call with
    | access n _ _ =>
      obtain ⟨base, hbase⟩ := hcall
      exact ⟨base, hkeeps ptr n base hbase⟩
    | call | exchange => trivial
  unfold GrantExecution.allocate
  simp only
  split
  case h_1 p herror =>
    obtain ⟨hrunning, hbreak, htable⟩ := allocateGrant_error_frame hfree herror
    exact ⟨h.frame (hrunning.trans h.running) (hbreak ▸ h.appBreak_pos) htable
      hrest, fun _ _ hn => hn⟩
  case h_2 p hok =>
    obtain ⟨hrunning, hbreak, ptr, hnonzero, heven, htable⟩ :=
      allocateGrant_storedPointer hfree h.appBreak_pos hok
    have hptr : p.storedPointer grantNum = some ptr := by
      rw [htable, update_self]
    have hnew : grantNum ∉ s.enteredNums := by
      intro hentered
      obtain ⟨reference, hreference, rfl⟩ := mem_map.mp hentered
      have hbase := h.base_eq reference hreference
      rw [hnone] at hbase
      cases hbase
    -- The state between the allocation and the entry.
    have hallocated : Exclusive { s with
        process := p
        todo := rest
        allocatedAt := update s.allocatedAt grantNum (some ptr) } :=
      ⟨hrunning.trans h.running, hbreak ▸ h.appBreak_pos, h.nodup, fun reference hreference =>
          hkeeps _ _ _ (h.base_eq reference hreference),
        h.table.allocate hnew hnonzero heven htable,
        fun call hcall => hready _ call (hrest call hcall),
        fun reference hreference call hcall =>
          hready _ call (h.resume_ready reference hreference call hcall)⟩
    have hbase : update s.allocatedAt grantNum (some ptr) grantNum = some ptr := update_self ..
    rw [hptr]
    split
    case h_1 q herror =>
      obtain rfl := enterGrant_error herror
      exact ⟨hallocated, hkeeps _⟩
    case h_2 grantPtr q henter =>
      let reference : EnteredGrant :=
        { layout := .fromCounts grantPtr grantNum (grants grantNum.toNat)
          initialises := true
          resume := .access grantNum panicOnReenter closure :: rest }
      have hresume : ∀ call ∈ reference.resume, call.Ready
          (update s.allocatedAt grantNum (some ptr)) := by
        intro call hcall
        rcases mem_cons.mp hcall with rfl | hcall
        · exact ⟨ptr, hbase⟩
        · exact hallocated.todo_ready call hcall
      have hentered : Exclusive ⟨q, reference :: s.entered, [],
          update s.allocatedAt grantNum (some ptr)⟩ :=
        hallocated.enter hbase henter rfl rfl hresume (by simp)
      let initialised : ProcessStandard B := { q with
        memory := KernelManagedLayout.initializeFromCounts q.memory grantPtr
          (grants grantNum.toNat) }
      exact ⟨hentered.frame hentered.running
        hentered.appBreak_pos rfl hentered.todo_ready, hkeeps _⟩

theorem access {base : Usize} {panicOnReenter : Bool} {closure : List GrantCall}
    (hbase : s.allocatedAt grantNum = some base)
    (hok : s.access grantNum panicOnReenter closure rest = .ok s') :
    s'.Exclusive ∧ s'.allocatedAt = s.allocatedAt := by
  unfold GrantExecution.access at hok
  split at hok
  case h_1 p herror =>
    obtain rfl := enterGrant_error herror
    split_ifs at hok
    cases hok
    exact ⟨h.skip hrest, rfl⟩
  case h_2 ptr p henter =>
    cases hok
    refine ⟨h.enter hbase henter rfl rfl hrest ?_, rfl⟩
    intro call hcall
    obtain ⟨call, -, rfl⟩ := mem_map.mp hcall
    trivial

theorem swap (kind : SavedKind) (driverNum num : Usize) (new : Usize × Usize) :
    (s.swap kind driverNum num new rest).Exclusive := by
  unfold GrantExecution.swap
  split
  case h_1 p herror =>
    obtain rfl := enterGrantKernelManaged_error herror
    exact h.skip hrest
  case h_2 layout p hok =>
    obtain ⟨_, _, -, hallocated, henter, rfl⟩ := enterGrantKernelManaged_ok hok
    obtain ⟨_, hstored, hnonzero⟩ := (grantIsAllocated_iff_storedPointer h.running).mp hallocated
    obtain ⟨_, hbase⟩ := h.table.exists_base hstored (by simpa using hnonzero)
    refine h.enter hbase henter rfl rfl hrest ?_
    intro call hcall
    rw [mem_singleton.mp hcall]
    trivial

theorem use {f : KernelManagedLayout → ProcessStandard B → ProcessStandard B}
    (hframe : ∀ layout p, (f layout p).isRunning = p.isRunning ∧
      (f layout p).appBreak = p.appBreak ∧ (f layout p).grantPointers = p.grantPointers) :
    (s.use rest f).Exclusive := by
  unfold GrantExecution.use
  split
  · exact h.skip hrest
  case h_2 reference others hentered =>
    obtain ⟨hrunning, hbreak, htable⟩ := hframe reference.layout s.process
    refine h.frame (hrunning.trans h.running) (hbreak ▸ h.appBreak_pos) ?_ hrest
    unfold storedPointer
    rw [htable]

end

end Exclusive

theorem use_allocatedAt (s : GrantExecution B) (rest : List PendingCall)
    (f : KernelManagedLayout → ProcessStandard B → ProcessStandard B) :
    (s.use rest f).allocatedAt = s.allocatedAt := by
  unfold use
  split <;> rfl

theorem swap_allocatedAt (s : GrantExecution B) (kind : SavedKind)
    (driverNum num : Usize) (new : Usize × Usize) (rest : List PendingCall) :
    (s.swap kind driverNum num new rest).allocatedAt = s.allocatedAt := by
  unfold swap
  split <;> rfl

theorem exchange_frame (kind : SavedKind) (num : Usize) (new : Usize × Usize)
    (layout : KernelManagedLayout) (p : ProcessStandard B) :
    (exchange kind num new layout p).isRunning = p.isRunning ∧
      (exchange kind num new layout p).appBreak = p.appBreak ∧
      (exchange kind num new layout p).grantPointers = p.grantPointers := by
  unfold exchange
  split_ifs <;> exact ⟨rfl, rfl, rfl⟩

theorem act_frame (action : GrantAction) (layout : KernelManagedLayout)
    (p : ProcessStandard B) (decl : GrantDecl) :
    (action.apply decl layout p).isRunning = p.isRunning ∧
      (action.apply decl layout p).appBreak = p.appBreak ∧
      (action.apply decl layout p).grantPointers = p.grantPointers := by
  obtain ⟨_, _, _, _, _, hframe⟩ := GrantAction.apply_frame decl layout action
  rw [hframe]
  exact ⟨rfl, rfl, rfl⟩

/-- What holds after a step from `s`: the invariant, and a grant stays where it
was allocated. -/
structure StepKeeps (s s' : GrantExecution B) : Prop where
  exclusive : s'.Exclusive
  allocatedAt : ∀ n base, s.allocatedAt n = some base → s'.allocatedAt n = some base

theorem StepKeeps.of_eq (h : s'.Exclusive)
    (hsame : s'.allocatedAt = s.allocatedAt) : StepKeeps s s' :=
  ⟨h, fun n base hn => by rw [hsame]; exact hn⟩

theorem perform_keeps (h : s.Exclusive) {call : GrantCall}
    (hrest : ∀ call ∈ rest, call.Ready s.allocatedAt)
    (hok : s.perform grants rest call = .ok s') : StepKeeps s s' := by
  have haccess : ∀ {grantNum panicOnReenter closure},
      s.process.grantIsAllocated grantNum = some true →
      StepKeeps s { s with
        todo := .access grantNum panicOnReenter closure :: rest } := by
    intro grantNum panicOnReenter closure hallocated
    obtain ⟨_, hstored, hnonzero⟩ := (grantIsAllocated_iff_storedPointer h.running).mp hallocated
    have hbase := h.table.exists_base hstored (by simpa using hnonzero)
    refine .of_eq (h.skip ?_) rfl
    intro other hother
    rcases mem_cons.mp hother with rfl | hother
    · exact hbase
    · exact hrest other hother
  cases call with
  | enter grantNum panicOnReenter closure =>
    simp only [perform] at hok
    split at hok
    · cases hok
      exact .of_eq (h.skip hrest) rfl
    case h_2 hallocated =>
      cases hok
      exact haccess hallocated
    case h_3 hfree =>
      cases hok
      obtain ⟨hexclusive, hkeeps⟩ := h.allocate hrest hfree
      exact ⟨hexclusive, hkeeps⟩
  | each grantNum panicOnReenter closure =>
    simp only [perform] at hok
    split_ifs at hok with hallocated
    · cases hok
      exact haccess hallocated
    · cases hok
      exact .of_eq (h.skip hrest) rfl
  | swap kind driverNum num new =>
    cases hok
    exact .of_eq (h.swap hrest kind driverNum num new) (swap_allocatedAt ..)
  | act action =>
    cases hok
    exact .of_eq (h.use hrest fun layout p => act_frame action layout p _) (use_allocatedAt ..)

theorem step_keeps (h : s.Exclusive) (hok : s.step grants = .ok s') : StepKeeps s s' := by
  unfold step at hok
  split at hok
  case h_1 htodo =>
    split at hok
    · cases hok
      exact .of_eq h rfl
    case h_2 reference others hentered =>
      cases hok
      exact .of_eq (h.drop hentered) rfl
  case h_2 call rest htodo =>
    exact perform_keeps h (h.rest_ready htodo) hok
  case h_3 grantNum panicOnReenter closure rest htodo =>
    have hready := h.todo_ready (.access grantNum panicOnReenter closure) (by
      rw [htodo]
      exact mem_cons_self)
    obtain ⟨_, hbase⟩ := hready
    obtain ⟨hexclusive, hsame⟩ := h.access (h.rest_ready htodo) hbase hok
    exact .of_eq hexclusive hsame
  case h_4 kind num new rest htodo =>
    cases hok
    exact .of_eq (h.use (h.rest_ready htodo) (exchange_frame kind num new)) (use_allocatedAt ..)

theorem Step.keeps (h : s.Exclusive) (hstep : Step grants s s') : StepKeeps s s' := by
  cases hstep with
  | run hok => exact step_keeps h hok
  | call calls =>
    refine .of_eq (h.skip ?_) rfl
    intro call hcall
    rcases mem_append.mp hcall with hnew | hold
    · obtain ⟨call, -, rfl⟩ := mem_map.mp hnew
      trivial
    · exact h.todo_ready call hold
  | other htable hrunning hpos =>
    refine .of_eq (h.frame hrunning hpos ?_ h.todo_ready) rfl
    unfold storedPointer
    rw [htable]

theorem Reaches.keeps (h : s.Exclusive) (hreach : Reaches grants s s') : StepKeeps s s' := by
  induction hreach with
  | refl => exact .of_eq h rfl
  | tail _ hstep ih =>
    have hkeeps := Step.keeps ih.exclusive hstep
    exact ⟨hkeeps.exclusive, fun n base hn =>
      hkeeps.allocatedAt n base (ih.allocatedAt n base hn)⟩

/-! ## Attempts to enter a grant twice -/

structure RefusesAgain (grants : ℕ → GrantDecl) (s : GrantExecution B)
    (grantNum : Usize) : Prop where
  enterGrant : s.process.enterGrant grantNum = (.error .alreadyInUse, s.process)
  /-- `subscribe`, `allow_ro` and `allow_rw` fail. -/
  kernel : ∀ driverNum, s.process.lookupGrantFromDriverNum driverNum = .ok grantNum →
    s.process.enterGrantKernelManaged driverNum = (.error .nomem, s.process)
  /-- `enter` stops the kernel. -/
  enter : ∀ closure rest, s.access grantNum true closure rest = .error .grantReentered
  /-- `try_enter` is skipped. -/
  tryEnter : ∀ closure rest, s.access grantNum false closure rest = .ok { s with todo := rest }
  /-- `Grant::enter` and `each` come to one of these, without allocating the
  grant anew. -/
  again : ∀ panicOnReenter closure rest,
    s.perform grants rest (.enter grantNum panicOnReenter closure) =
        .ok { s with todo := .access grantNum panicOnReenter closure :: rest } ∧
      s.perform grants rest (.each grantNum panicOnReenter closure) =
        .ok { s with todo := .access grantNum panicOnReenter closure :: rest }

theorem Exclusive.refusesAgain (h : s.Exclusive) {reference : EnteredGrant}
    (hreference : reference ∈ s.entered) : RefusesAgain grants s reference.grantNum := by
  have hbase := h.base_eq reference hreference
  have hmem : reference.grantNum ∈ s.enteredNums := mem_map_of_mem hreference
  have henter := h.table.enterGrant_entered h.running hbase hmem
  obtain ⟨-, -, hstored⟩ := h.table.allocated _ _ hbase
  rw [if_pos hmem] at hstored
  have hallocated : s.process.grantIsAllocated reference.grantNum = some true := by
    refine (grantIsAllocated_iff_storedPointer h.running).mpr ⟨_, hstored, ?_⟩
    exact bne_iff_ne.mpr (or_one_ne_zero reference.base)
  constructor
  · exact henter
  · intro driverNum hlookup
    simp [enterGrantKernelManaged, hlookup, hallocated, henter]
  · intro closure rest
    simp [GrantExecution.access, henter]
  · intro closure rest
    simp [GrantExecution.access, henter]
  · intro panicOnReenter closure rest
    simp [perform, hallocated]

end GrantExecution

/-! ## A new incarnation -/

/-- A process at the start of an incarnation: none of its grants is
allocated. -/
structure ProcessStandard.Fresh {B : Board} (p : ProcessStandard B) : Prop where
  running : p.isRunning = true
  appBreak_pos : 0 < p.appBreak.toNat
  unallocated : ∀ entry ∈ p.grantPointers, entry.grantPtr = 0

namespace ProcessStandard

variable {B : Board} {p : ProcessStandard B}

theorem create_fresh (contract : B.chip.mpu.Contract)
    (arguments : CreateArguments) (kernel : Kernel) {kernel' : Kernel} {unused : MemorySlice}
    (hcreate : create arguments kernel = .ok (.ok (p, unused), kernel')) : p.Fresh := by
  refine ⟨?_, (layoutInvariant_create contract hcreate).appBreak_pos, ?_⟩
  · obtain ⟨_, _, _, _, _, _, rfl, -⟩ := create_ok contract hcreate
    rfl
  · obtain ⟨_, _, _, _, _, _, rfl, -⟩ := create_ok contract hcreate
    intro entry hentry
    rw [eq_of_mem_replicate hentry]
    rfl

end ProcessStandard

theorem GrantExecution.start_exclusive {p : ProcessStandard B}
    (hfresh : p.Fresh) : (GrantExecution.start p).Exclusive where
  running := hfresh.running
  appBreak_pos := hfresh.appBreak_pos
  nodup := nodup_nil
  base_eq := by simp [start]
  table := by
    refine ⟨by simp [start], fun n _ ptr hptr => ?_⟩
    obtain ⟨entry, hentry, rfl⟩ := exists_entry hptr
    exact hfresh.unallocated entry (mem_of_getElem? hentry)
  todo_ready := by simp [start]
  resume_ready := by simp [start]

/-- Along every run there is at most one reference to each grant, to where it
was allocated; the stored pointer is marked exactly while it exists, and
attempts to enter the grant again fail without an effect. -/
theorem grant_entry_exclusive {B : Board} (grants : ℕ → GrantDecl)
    {p : ProcessStandard B} (hfresh : p.Fresh) {s : GrantExecution B}
    (hreach : GrantExecution.Reaches grants (.start p) s) :
    (s.entered.map (·.grantNum)).Nodup ∧ (∀ reference ∈ s.entered,
        s.allocatedAt reference.grantNum = some reference.base ∧
        s.process.storedPointer reference.grantNum = some (reference.base ||| 1) ∧
        s.RefusesAgain grants reference.grantNum) ∧ (∀ n base, s.allocatedAt n = some base →
        n ∉ s.entered.map (·.grantNum) → s.process.storedPointer n = some base) ∧
      ∀ n base s', s.allocatedAt n = some base →
        GrantExecution.Reaches grants s s' → s'.allocatedAt n = some base := by
  have hexclusive :=
    (GrantExecution.Reaches.keeps (GrantExecution.start_exclusive hfresh) hreach).exclusive
  refine ⟨hexclusive.nodup, ?_, ?_, ?_⟩
  · intro reference hreference
    have hbase := hexclusive.base_eq reference hreference
    have hmem : reference.grantNum ∈ s.enteredNums := mem_map_of_mem hreference
    obtain ⟨-, -, hstored⟩ := hexclusive.table.allocated _ _ hbase
    rw [if_pos hmem] at hstored
    exact ⟨hbase, hstored, hexclusive.refusesAgain hreference⟩
  · intro n base hbase hleft
    obtain ⟨-, -, hstored⟩ := hexclusive.table.allocated n base hbase
    rw [hstored, if_neg]
    exact hleft
  · intro n base s' hbase hreach'
    exact (GrantExecution.Reaches.keeps hexclusive hreach').allocatedAt n base hbase

def wordGrants (number : ℕ) : GrantDecl where
  driverNum := BitVec.ofNat 32 number
  upcalls := 1
  allowRos := 1
  allowRws := 1
  grantTSize := 4
  grantTAlign := 4
  grantTDefault _ := 0
  grantTSize_lt := by decide
  grantTAlign_eq := ⟨2, by decide, rfl⟩

namespace GrantExecution

variable {B : Board} (grants : ℕ → GrantDecl)

def steps : ℕ → GrantExecution B → Except Panic (GrantExecution B)
  | 0, s => .ok s
  | n + 1, s => do steps n (← s.step grants)

variable {grants}

theorem reaches_steps {s s' : GrantExecution B}
    (hsteps : s.steps grants n = .ok s') : Reaches grants s s' := by
  induction n generalizing s with
  | zero =>
    cases hsteps
    exact .refl
  | succ n ih =>
    obtain ⟨_, hstep, hrest⟩ := Arithmetic.of_bind_ok hsteps
    exact .head (.run hstep) (ih hrest)

theorem reaches_calls (n : ℕ) (calls : List GrantCall)
    {p : ProcessStandard B} {s : GrantExecution B}
    (hsteps : steps grants n { start p with todo := calls.map .call } =
      .ok s) : Reaches grants (start p) s :=
  .head (.call (start p) calls) (reaches_steps (by rwa [start, append_nil]))

end GrantExecution

theorem grant_entry_exclusive_small : ∃ (p : ProcessStandard smallBoard) (unused : MemorySlice)
      (kernel0 : Kernel), ProcessStandard.create (smallArguments 1024) ⟨0⟩ =
        .ok (.ok (p, unused), kernel0) ∧ ∃ s, GrantExecution.Reaches wordGrants (.start p) s ∧
        s.entered.length = 2 ∧ (s.entered.map (·.grantNum)).Nodup := by
  have hnodup : ∀ p : ProcessStandard smallBoard, p.Fresh →
      (∃ s, GrantExecution.Reaches wordGrants (.start p) s ∧ s.entered.length = 2) →
      ∃ s, GrantExecution.Reaches wordGrants (.start p) s ∧
        s.entered.length = 2 ∧ (s.entered.map (·.grantNum)).Nodup := by
    rintro p hfresh ⟨s, hreach, hlen⟩
    exact ⟨s, hreach, hlen, (grant_entry_exclusive wordGrants hfresh hreach).1⟩
  -- The second grant is being initialised while the first one is entered.
  refine ⟨_, _, _, rfl, hnodup _ (create_fresh
    unalignedMpuContract (smallArguments 1024) ⟨0⟩ rfl) ?_⟩
  exact ⟨_, GrantExecution.reaches_calls 4 [.enter 0 true [.enter 1 true []]] rfl, rfl⟩

end TockKernel

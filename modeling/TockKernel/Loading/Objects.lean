import TockKernel.Loading.Discovery
import TockKernel.Newest

/-!
# Loading the discovered binaries

The second phase of the `SequentialProcessLoaderMachine` of
`kernel/src/process_loading.rs`: the binaries that were discovered and checked
become processes, except those that share an identity with a newer binary or
with a process that is there.
-/

namespace TockKernel.Loading

open Tbf Newest List

/-- The trait `AppIdPolicy`: application identifiers are only ever compared. -/
structure AppIdPolicy (X : Type) where
  differentIdentifier : ProcessBinary → ProcessBinary → Bool
  differentIdentifierProcess : ProcessBinary → LoadedProcess X → Bool
  differentIdentifierProcesses : LoadedProcess X → LoadedProcess X → Bool
  toShortId : ProcessBinary → ShortId

inductive SequentialProcessLoaderMachineState where
  | discoverProcessBinaries
  | loadProcesses
  deriving DecidableEq

inductive Notification where
  | processLoaded (result : Except ProcessLoadError Unit)
  | processLoadingFinished

/-- The binary that the checker holds during a check is kept here, and so are
the calls of the client, the last one first. -/
structure SequentialProcessLoaderMachine (M X : Type) where
  procs : ProcessTable X
  procBinaries : List (Option ProcessBinary)
  flash : FlashSlice
  appMemory : M
  deferredCall : Bool
  policy : Option (AppIdPolicy X)
  state : Option SequentialProcessLoaderMachineState
  checking : Option ProcessBinary
  notifications : List Notification
  /-- Whether the client calls `start` from inside `process_loading_finished`. -/
  restarts : Bool

def binaryVersion (pb : ProcessBinary) : ℕ := pb.header.getBinaryVersion.toNat

namespace SequentialProcessLoaderMachine

variable {M X : Type}

def notify (machine : SequentialProcessLoaderMachine M X)
    (notification : Notification) : SequentialProcessLoaderMachine M X :=
  { machine with notifications := notification :: machine.notifications }

def findOpenProcessSlot (machine : SequentialProcessLoaderMachine M X) : Option ℕ :=
  machine.procs.findIdx? Option.isNone

def isBlockedFromLoadingBy (machine : SequentialProcessLoaderMachine M X)
    (pb1 pb2 : ProcessBinary) : Bool :=
  let sameAppId := machine.policy.elim false fun policy => !policy.differentIdentifier pb1 pb2
  let sameShortAppId := machine.policy.elim false fun policy =>
      (policy.toShortId pb1).eq (policy.toShortId pb2)
  let otherNewer := decide (binaryVersion pb1 < binaryVersion pb2)
  (sameAppId || sameShortAppId) && otherNewer

def isBlockedFromLoadingByProcess (machine : SequentialProcessLoaderMachine M X)
    (pb : ProcessBinary) (process : LoadedProcess X) : Bool :=
  let sameAppId := machine.policy.elim false fun policy =>
      !policy.differentIdentifierProcess pb process
  let sameShortAppId := machine.policy.elim false fun policy =>
      (policy.toShortId pb).eq process.shortAppId
  sameAppId || sameShortAppId

def loadProcessObject (create : Creator M X)
    (machine : SequentialProcessLoaderMachine M X) (pb : ProcessBinary) :
    SequentialProcessLoaderMachine M X :=
  match machine.findOpenProcessSlot with
  | none => machine.notify (.processLoaded (.error .noProcessSlot))
  | some index =>
    let shortAppId := machine.policy.elim .locallyUnique fun policy => policy.toShortId pb
    match loadProcess create pb machine.appMemory shortAppId index with
    | .ok (newMemory, some process) =>
      notify
        { machine with
          appMemory := newMemory
          procs := machine.procs.set index (some process) }
        (.processLoaded (.ok ()))
    | .ok (newMemory, none) => { machine with appMemory := newMemory }
    | .error (newMemory, error) =>
      notify { machine with appMemory := newMemory } (.processLoaded (.error error))

/-- One binary, with the ones that have not been taken out of the array yet. -/
def loadUnlessBlocked (create : Creator M X)
    (machine : SequentialProcessLoaderMachine M X) (pb : ProcessBinary)
    (others : List (Option ProcessBinary)) : SequentialProcessLoaderMachine M X :=
  if others.any fun other =>
      other.any (machine.isBlockedFromLoadingBy pb) then
    machine
  else if machine.procs.any fun process =>
      process.any (machine.isBlockedFromLoadingByProcess pb) then
    machine
  else
    machine.loadProcessObject create pb

/-- All binaries before the current one have been taken out of the array, so
that only the later ones can block it. -/
def loadBinaries (create : Creator M X) :
    List (Option ProcessBinary) → SequentialProcessLoaderMachine M X →
      SequentialProcessLoaderMachine M X
  | [], machine => machine
  | none :: others, machine => loadBinaries create others machine
  | some pb :: others, machine =>
    loadBinaries create others (machine.loadUnlessBlocked create pb others)

def start (machine : SequentialProcessLoaderMachine M X) : SequentialProcessLoaderMachine M X :=
  { machine with
    state := some .discoverProcessBinaries
    deferredCall := true }

def processLoadingFinished (machine : SequentialProcessLoaderMachine M X) :
    SequentialProcessLoaderMachine M X :=
  let notified := machine.notify .processLoadingFinished
  if machine.restarts then notified.start else notified

/-- The client is called before the state is cleared. -/
def loadProcessObjects (create : Creator M X) (machine : SequentialProcessLoaderMachine M X) :
    SequentialProcessLoaderMachine M X :=
  let loaded := { loadBinaries create machine.procBinaries machine with
    procBinaries := machine.procBinaries.map fun _ => none }
  { loaded.processLoadingFinished with state := none }

theorem loadProcessObjects_procs (create : Creator M X)
    (machine : SequentialProcessLoaderMachine M X) : (machine.loadProcessObjects create).procs =
      (loadBinaries create machine.procBinaries machine).procs := by
  unfold loadProcessObjects processLoadingFinished
  dsimp only
  split <;> rfl

end SequentialProcessLoaderMachine

/-! ## Identities -/

variable {M X : Type}

namespace AppIdPolicy

variable (policy : AppIdPolicy X)

/-- Two binaries have the same application identifier, or the same fixed short
identifier. -/
def shareIdentity (pb1 pb2 : ProcessBinary) : Bool :=
  !policy.differentIdentifier pb1 pb2 || (policy.toShortId pb1).eq (policy.toShortId pb2)

def shareIdentityProcess (pb : ProcessBinary) (process : LoadedProcess X) : Bool :=
  !policy.differentIdentifierProcess pb process || (policy.toShortId pb).eq process.shortAppId

/-- Comparing identifiers is symmetric, and a process has the identifier of its
binary. -/
structure Consistent (policy : AppIdPolicy X) : Prop where
  symm : ∀ pb1 pb2, policy.differentIdentifier pb1 pb2 = policy.differentIdentifier pb2 pb1
  binary_process : ∀ pb process, policy.differentIdentifierProcess pb process =
      policy.differentIdentifier pb process.binary
  processes : ∀ process1 process2, policy.differentIdentifierProcesses process1 process2 =
      policy.differentIdentifier process1.binary process2.binary

/-- Two processes have neither the same application identifier nor the same
fixed short identifier. -/
def Distinct (process1 process2 : LoadedProcess X) : Prop :=
  policy.differentIdentifierProcesses process1 process2 = true ∧
    process1.shortAppId.eq process2.shortAppId = false

variable {policy : AppIdPolicy X}

theorem Distinct.symm (hconsistent : policy.Consistent) {process1 process2 : LoadedProcess X}
    (h : policy.Distinct process1 process2) : policy.Distinct process2 process1 := by
  refine ⟨?_, ?_⟩
  · rw [hconsistent.processes, hconsistent.symm, ← hconsistent.processes]
    exact h.1
  · rw [ShortId.eq_comm]
    exact h.2

theorem shareIdentityProcess_eq (hconsistent : policy.Consistent) (pb : ProcessBinary)
    {process : LoadedProcess X} (hshort : process.shortAppId = policy.toShortId process.binary) :
    policy.shareIdentityProcess pb process = policy.shareIdentity pb process.binary := by
  unfold shareIdentityProcess shareIdentity
  rw [hconsistent.binary_process, hshort]

theorem distinct_of_not_shareIdentityProcess (hconsistent : policy.Consistent) {pb : ProcessBinary}
    {process : LoadedProcess X} (x : X) (h : policy.shareIdentityProcess pb process = false) :
    policy.Distinct ⟨pb, policy.toShortId pb, x⟩ process := by
  obtain ⟨hid, hshort⟩ := Bool.or_eq_false_iff.mp h
  refine ⟨?_, hshort⟩
  rw [hconsistent.processes, ← hconsistent.binary_process]
  simpa using hid

end AppIdPolicy

namespace SequentialProcessLoaderMachine

variable {create : Creator M X} {machine : SequentialProcessLoaderMachine M X}
  {policy : AppIdPolicy X}

theorem isBlockedFromLoadingBy_eq (hpolicy : machine.policy = some policy)
    (pb1 pb2 : ProcessBinary) : machine.isBlockedFromLoadingBy pb1 pb2 =
      (policy.shareIdentity pb1 pb2 && decide (binaryVersion pb1 < binaryVersion pb2)) := by
  rw [isBlockedFromLoadingBy, hpolicy]
  rfl

theorem isBlockedFromLoadingByProcess_eq (hpolicy : machine.policy = some policy)
    (pb : ProcessBinary) (process : LoadedProcess X) :
    machine.isBlockedFromLoadingByProcess pb process = policy.shareIdentityProcess pb process := by
  rw [isBlockedFromLoadingByProcess, hpolicy]
  rfl

/-! ## Uniqueness -/

def Unclaimed (policy : AppIdPolicy X) (pb : ProcessBinary) (procs : ProcessTable X) : Prop :=
  ∀ process, some process ∈ procs → policy.shareIdentityProcess pb process = false

variable {pb : ProcessBinary} {index : ℕ}
  {procs before : ProcessTable X} {taken : List ProcessBinary}

theorem unclaimed_of_not_any (hpolicy : machine.policy = some policy)
    (h : ¬ machine.procs.any (fun process => process.any (machine.isBlockedFromLoadingByProcess
      pb))) : Unclaimed policy pb machine.procs := by
  intro process hmem
  have hnot := any_eq_false.mp (Bool.eq_false_of_not_eq_true h) _ hmem
  rw [← isBlockedFromLoadingByProcess_eq hpolicy]
  exact Bool.eq_false_of_not_eq_true hnot

theorem loadProcessObject_policy (create : Creator M X) (pb : ProcessBinary) :
    (machine.loadProcessObject create pb).policy = machine.policy := by
  unfold loadProcessObject
  split
  · rfl
  · dsimp only
    split <;> rfl

theorem loadUnlessBlocked_policy (create : Creator M X) (pb : ProcessBinary)
    (others : List (Option ProcessBinary)) :
    (machine.loadUnlessBlocked create pb others).policy = machine.policy := by
  unfold loadUnlessBlocked
  split
  · rfl
  split
  · rfl
  · exact loadProcessObject_policy create pb

theorem getElem?_of_findOpenProcessSlot (h : machine.findOpenProcessSlot = some index) :
    machine.procs[index]? = some none := by
  obtain ⟨hlt, hnone, -⟩ := findIdx?_eq_some_iff_getElem.mp h
  rw [getElem?_eq_getElem hlt, Option.isNone_iff_eq_none.mp hnone]

theorem loadProcess_eq_some {memory newMemory : M} {appId : ShortId} {process : LoadedProcess X}
    (h : loadProcess create pb memory appId index = .ok (newMemory, some process)) :
    ∃ x, process = ⟨pb, appId, x⟩ := by
  unfold loadProcess at h
  split at h
  next unused created hcreate =>
    cases created with
    | none => cases h
    | some x =>
      cases h
      exact ⟨x, rfl⟩
  next => cases h

theorem loadProcessObject_procs (create : Creator M X)
    (hpolicy : machine.policy = some policy) (pb : ProcessBinary) :
    (machine.loadProcessObject create pb).procs = machine.procs ∨
      ∃ index x, machine.procs[index]? = some none ∧ (machine.loadProcessObject create pb).procs =
          machine.procs.set index (some ⟨pb, policy.toShortId pb, x⟩) := by
  unfold loadProcessObject
  rw [hpolicy]
  split
  next => exact .inl rfl
  next index hslot =>
    dsimp
    split
    next newMemory process hload =>
      obtain ⟨x, rfl⟩ := loadProcess_eq_some hload
      exact .inr ⟨index, x, getElem?_of_findOpenProcessSlot hslot, rfl⟩
    next => exact .inl rfl
    next => exact .inl rfl

theorem loadUnlessBlocked_procs (create : Creator M X) (hpolicy : machine.policy = some policy)
    (pb : ProcessBinary) (others : List (Option ProcessBinary)) :
    (machine.loadUnlessBlocked create pb others).procs = machine.procs ∨
      ∃ index x, machine.procs[index]? = some none ∧ Unclaimed policy pb machine.procs ∧
        (machine.loadUnlessBlocked create pb others).procs =
          machine.procs.set index (some ⟨pb, policy.toShortId pb, x⟩) := by
  unfold loadUnlessBlocked
  split
  next => exact .inl rfl
  next =>
    split
    next => exact .inl rfl
    next hfree =>
      obtain hsame | ⟨index, x, hopen, hset⟩ := loadProcessObject_procs create hpolicy pb
      · exact .inl hsame
      · exact .inr ⟨index, x, hopen, unclaimed_of_not_any hpolicy hfree, hset⟩

/-- Two processes are distinct unless both were there at the beginning, and
those still are. -/
structure UniqueSince (policy : AppIdPolicy X)
    (before procs : ProcessTable X) : Prop where
  kept : ∀ (i : ℕ) (process : LoadedProcess X),
    before[i]? = some (some process) → procs[i]? = some (some process)
  distinct : ∀ (i j : ℕ) (process1 process2 : LoadedProcess X), i ≠ j →
    procs[i]? = some (some process1) → procs[j]? = some (some process2) →
    (before[i]? = some (some process1) ∧ before[j]? = some (some process2)) ∨
      policy.Distinct process1 process2

theorem UniqueSince.refl (policy : AppIdPolicy X) (procs : ProcessTable X) :
    UniqueSince policy procs procs where
  kept _ _ h := h
  distinct _ _ _ _ _ hi hj := .inl ⟨hi, hj⟩

theorem UniqueSince.load (hconsistent : policy.Consistent)
    (h : UniqueSince policy before procs) (hopen : procs[index]? = some none)
    (hunclaimed : Unclaimed policy pb procs) (x : X) : UniqueSince policy before
      (procs.set index (some ⟨pb, policy.toShortId pb, x⟩)) where
  kept i process hbefore := by
    have hprocs := h.kept i process hbefore
    have hne : index ≠ i := by
      rintro rfl
      rw [hopen] at hprocs
      cases hprocs
    rw [List.getElem?_set_ne hne]
    exact hprocs
  distinct i j process1 process2 hij hi hj := by
    have hlt : index < procs.length := (List.getElem?_eq_some_iff.mp hopen).1
    by_cases hidx : index = i
    · subst hidx
      rw [List.getElem?_set_self hlt] at hi
      rw [List.getElem?_set_ne hij] at hj
      cases hi
      exact .inr (AppIdPolicy.distinct_of_not_shareIdentityProcess hconsistent x
        (hunclaimed process2 (List.mem_of_getElem? hj)))
    rw [List.getElem?_set_ne hidx] at hi
    by_cases hjdx : index = j
    · subst hjdx
      rw [List.getElem?_set_self hlt] at hj
      cases hj
      exact .inr (AppIdPolicy.Distinct.symm hconsistent
        (AppIdPolicy.distinct_of_not_shareIdentityProcess hconsistent x
          (hunclaimed process1 (List.mem_of_getElem? hi))))
    · rw [List.getElem?_set_ne hjdx] at hj
      exact h.distinct i j process1 process2 hij hi hj

theorem UniqueSince.loadBinaries (create : Creator M X)
    (hconsistent : policy.Consistent) (binaries : List (Option ProcessBinary))
    (hpolicy : machine.policy = some policy) (h : UniqueSince policy before machine.procs) :
    UniqueSince policy before (loadBinaries create binaries machine).procs := by
  induction binaries generalizing machine with
  | nil => exact h
  | cons binary others ih =>
    cases binary with
    | none => exact ih hpolicy h
    | some pb =>
      apply ih ((loadUnlessBlocked_policy create pb others).trans hpolicy)
      obtain hsame | ⟨_, x, hopen, hunclaimed, hset⟩ :=
        loadUnlessBlocked_procs create hpolicy pb others
      · rw [hsame]
        exact h
      · rw [hset]
        exact h.load hconsistent hopen hunclaimed x

/-! ## The newest binary of every identity -/

def discovered (binaries : List (Option ProcessBinary)) : List ProcessBinary :=
  binaries.filterMap id

def openSlots (procs : ProcessTable X) : ℕ :=
  procs.countP Option.isNone

def Creates (create : Creator M X) (pb : ProcessBinary) : Prop :=
  ∀ memory appId index, ∃ newMemory x, create pb memory appId index = .ok (newMemory, some x)

/-- The processes in the array are those that were there and one for each of
the binaries taken. -/
structure Loaded (policy : AppIdPolicy X) (before procs : ProcessTable X)
    (taken : List ProcessBinary) : Prop where
  fresh : ∀ process, some process ∈ procs → some process ∈ before ∨ (process.binary ∈ taken ∧
      process.shortAppId = policy.toShortId process.binary)
  loaded : ∀ pb ∈ taken, ∃ process, some process ∈ procs ∧
    process.binary = pb ∧ process.shortAppId = policy.toShortId pb
  slots : openSlots procs + taken.length = openSlots before

theorem Loaded.refl (policy : AppIdPolicy X) (procs : ProcessTable X) :
    Loaded policy procs procs [] where
  fresh _ h := .inl h
  loaded := by simp
  slots := rfl

theorem openSlots_set (hopen : procs[index]? = some none) (process : LoadedProcess X) :
    openSlots (procs.set index (some process)) + 1 = openSlots procs := by
  obtain ⟨hlt, hnone⟩ := List.getElem?_eq_some_iff.mp hopen
  have hpos : 0 < procs.countP Option.isNone :=
    List.countP_pos_iff.mpr ⟨none, List.mem_of_getElem? hopen, rfl⟩
  unfold openSlots
  rw [List.countP_set hlt, hnone]
  simp
  omega

theorem Loaded.load (h : Loaded policy before procs taken)
    (hopen : procs[index]? = some none) (pb : ProcessBinary) (x : X) :
    Loaded policy before (procs.set index (some ⟨pb, policy.toShortId pb, x⟩)) (taken ++ [pb]) where
  fresh process hmem := by
    obtain hmem | hmem := List.mem_or_eq_of_mem_set hmem
    · obtain hbefore | ⟨htaken, hshort⟩ := h.fresh process hmem
      · exact .inl hbefore
      · exact .inr ⟨List.mem_append_left _ htaken, hshort⟩
    · cases hmem
      exact .inr ⟨List.mem_append_right _ (List.mem_singleton_self pb), rfl⟩
  loaded pb' hpb' := by
    have hlt : index < procs.length := (List.getElem?_eq_some_iff.mp hopen).1
    obtain hpb' | hpb' := List.mem_append.mp hpb'
    · obtain ⟨process, hmem, hprocess⟩ := h.loaded pb' hpb'
      obtain ⟨i, hi⟩ := List.mem_iff_getElem?.mp hmem
      refine ⟨process, List.mem_of_getElem? (i := i) ?_, hprocess⟩
      rw [List.getElem?_set_ne]
      · exact hi
      · rintro rfl
        rw [hopen] at hi
        cases hi
    · obtain rfl := List.mem_singleton.mp hpb'
      exact ⟨_, List.mem_set hlt _, rfl, rfl⟩
  slots := by
    have hset := openSlots_set hopen ⟨pb, policy.toShortId pb, x⟩
    have hslots := h.slots
    rw [List.length_append, List.length_singleton]
    omega

theorem any_isBlockedFromLoadingBy (hpolicy : machine.policy = some policy)
    (pb : ProcessBinary) (others : List (Option ProcessBinary)) :
    (others.any fun other => other.any (machine.isBlockedFromLoadingBy pb)) =
      superseded policy.shareIdentity binaryVersion pb (discovered others) := by
  induction others with
  | nil => rfl
  | cons other others ih =>
    cases other with
    | none => exact ih
    | some other =>
      rw [any_cons, ih]
      show _ = (policy.shareIdentity pb other && _ || _)
      rw [← isBlockedFromLoadingBy_eq hpolicy]
      rfl

theorem any_isBlockedFromLoadingByProcess (hconsistent : policy.Consistent)
    (hpolicy : machine.policy = some policy) (h : Loaded policy before machine.procs taken)
    (hunclaimed : Unclaimed policy pb before) : (machine.procs.any fun process =>
        process.any (machine.isBlockedFromLoadingByProcess pb)) =
      taken.any (policy.shareIdentity pb) := by
  rw [Bool.eq_iff_iff, any_eq_true, any_eq_true]
  constructor
  · rintro ⟨slot, hmem, hslot⟩
    obtain ⟨process, rfl, hblocked⟩ := (Option.any_eq_true _ slot).mp hslot
    rw [isBlockedFromLoadingByProcess_eq hpolicy] at hblocked
    obtain hbefore | ⟨htaken, hshort⟩ := h.fresh process hmem
    · rw [hunclaimed process hbefore] at hblocked
      cases hblocked
    · rw [AppIdPolicy.shareIdentityProcess_eq hconsistent pb hshort] at hblocked
      exact ⟨process.binary, htaken, hblocked⟩
  · rintro ⟨other, htaken, hshare⟩
    obtain ⟨process, hmem, rfl, hshort⟩ := h.loaded other htaken
    refine ⟨some process, hmem, ?_⟩
    show machine.isBlockedFromLoadingByProcess pb process = true
    rw [isBlockedFromLoadingByProcess_eq hpolicy,
      AppIdPolicy.shareIdentityProcess_eq hconsistent pb hshort]
    exact hshare

theorem loadProcessObject_creates (hpolicy : machine.policy = some policy)
    (hcreates : Creates create pb) (hslot : 0 < openSlots machine.procs) :
    ∃ index x, machine.procs[index]? = some none ∧ (machine.loadProcessObject create pb).procs =
        machine.procs.set index (some ⟨pb, policy.toShortId pb, x⟩) := by
  unfold loadProcessObject
  rw [hpolicy]
  split
  next hfull =>
    obtain ⟨slot, hmem, hnone⟩ := countP_pos_iff.mp hslot
    have hsome := findIdx?_eq_none_iff.mp hfull slot hmem
    rw [hnone] at hsome
    cases hsome
  next index hindex =>
  obtain ⟨_, x, hcreate⟩ := hcreates machine.appMemory (policy.toShortId pb) index
  refine ⟨index, x, getElem?_of_findOpenProcessSlot hindex, ?_⟩
  simp [loadProcess, hcreate, notify]

/-- Sharing an identity is an equivalence, nothing of the binaries' identities
was loaded, every binary can be made into a process, and there is a slot for
every identity. -/
structure Loadable (create : Creator M X) (policy : AppIdPolicy X) (binaries : List ProcessBinary)
    (procs : ProcessTable X) : Prop where
  classes : Newest.Classes policy.shareIdentity binaries
  unclaimed : ∀ pb ∈ binaries, Unclaimed policy pb procs
  creates : ∀ pb ∈ binaries, Creates create pb
  slots : ∀ chosen ∈ binaries.sublists,
    chosen.Pairwise (fun pb1 pb2 => policy.shareIdentity pb1 pb2 = false) →
    chosen.length ≤ openSlots procs

theorem Loadable.openSlots_pos {all later : List ProcessBinary}
    (hloadable : Loadable create policy all before)
    (htaken : Taken policy.shareIdentity binaryVersion all (taken ++ [pb]) later)
    (h : Loaded policy before procs taken) : 0 < openSlots procs := by
  have hsublist : (taken ++ [pb]).Sublist all := (sublist_append_left _ later).trans htaken.sublist
  have hroom := hloadable.slots _ (mem_sublists.mpr hsublist) htaken.unrelated
  have hslots := h.slots
  rw [length_append, length_singleton] at hroom
  omega

section NewestRun

variable {all : List ProcessBinary} {before : ProcessTable X}
  {taken : List ProcessBinary} {pb : ProcessBinary}

section

variable (hconsistent : policy.Consistent)
include hconsistent

theorem Loaded.loadUnlessBlocked (hloadable : Loadable create policy all before)
    (hpolicy : machine.policy = some policy) {others : List (Option ProcessBinary)}
    (htaken : Taken policy.shareIdentity binaryVersion all taken (pb :: discovered others))
    (h : Loaded policy before machine.procs taken) :
    Loaded policy before (machine.loadUnlessBlocked create pb others).procs
      (if superseded policy.shareIdentity binaryVersion pb
          (discovered others) || taken.any (policy.shareIdentity pb) then
        taken
      else
        taken ++ [pb]) := by
  have hpb : pb ∈ all := htaken.mem_of_later mem_cons_self
  unfold SequentialProcessLoaderMachine.loadUnlessBlocked
  rw [any_isBlockedFromLoadingBy hpolicy pb others,
    any_isBlockedFromLoadingByProcess hconsistent hpolicy h (hloadable.unclaimed pb hpb)]
  cases hsuperseded : superseded policy.shareIdentity binaryVersion pb (discovered others) with
  | true => exact h
  | false =>
    cases hold : taken.any (policy.shareIdentity pb) with
    | true => exact h
    | false =>
      have htake := htaken.take hloadable.classes hsuperseded hold
      obtain ⟨_, x, hopen, hset⟩ := loadProcessObject_creates hpolicy
        (hloadable.creates pb hpb) (hloadable.openSlots_pos htake h)
      have hload := h.load hopen pb x
      rw [← hset] at hload
      exact hload

theorem Loaded.loadBinaries (hloadable : Loadable create policy all before)
    (binaries : List (Option ProcessBinary)) (hpolicy : machine.policy = some policy)
    (htaken : Taken policy.shareIdentity binaryVersion all taken (discovered binaries))
    (h : Loaded policy before machine.procs taken) :
    Loaded policy before (SequentialProcessLoaderMachine.loadBinaries create binaries machine).procs
      (select policy.shareIdentity binaryVersion (discovered binaries) taken) := by
  induction binaries generalizing machine taken with
  | nil => exact h
  | cons binary others ih =>
    cases binary with
    | none => exact ih hpolicy htaken h
    | some pb =>
      have hstep := Loaded.loadUnlessBlocked hconsistent hloadable hpolicy htaken h
      have hpolicy' := (loadUnlessBlocked_policy create pb others).trans hpolicy
      show Loaded policy before _ (select _ _ (pb :: discovered others) taken)
      unfold select
      split at hstep
      next hskip =>
        rw [if_pos hskip]
        exact ih hpolicy' htaken.skip hstep
      next hskip =>
      rw [if_neg hskip]
      obtain ⟨hsuperseded, hold⟩ := Bool.or_eq_false_iff.mp (Bool.eq_false_of_not_eq_true hskip)
      exact ih hpolicy' (htaken.take hloadable.classes hsuperseded hold) hstep

theorem Loaded.shareIdentity_binary {procs : ProcessTable X} (h : Loaded policy before procs taken)
    (hunclaimed : Unclaimed policy pb before) {process : LoadedProcess X}
    (hmem : some process ∈ procs) (hshare : policy.shareIdentityProcess pb process) :
    process.binary ∈ taken ∧ process.shortAppId = policy.toShortId process.binary ∧
      policy.shareIdentity pb process.binary := by
  obtain hbefore | ⟨htaken, hshort⟩ := h.fresh process hmem
  · rw [hunclaimed process hbefore] at hshare
    cases hshare
  · rw [AppIdPolicy.shareIdentityProcess_eq hconsistent pb hshort] at hshare
    exact ⟨htaken, hshort, hshare⟩

theorem UniqueSince.slot_unique (hloadable : Loadable create policy all before)
    {procs : ProcessTable X} (hunique : UniqueSince policy before procs)
    (h : Loaded policy before procs taken) (htaken : taken ⊆ all) (hpb : pb ∈ all) {i j : ℕ}
    {process1 process2 : LoadedProcess X} (hi : procs[i]? = some (some process1))
    (hj : procs[j]? = some (some process2)) (hshare1 : policy.shareIdentityProcess pb process1)
    (hshare2 : policy.shareIdentityProcess pb process2) : i = j := by
  by_contra hne
  have hunclaimed := hloadable.unclaimed pb hpb
  obtain ⟨hbefore, -⟩ | ⟨hids, hshorts⟩ := hunique.distinct i j _ _ hne hi hj
  · rw [hunclaimed process1 (mem_of_getElem? hbefore)] at hshare1
    cases hshare1
  obtain ⟨hmem1, hshort1, hshare1⟩ := h.shareIdentity_binary hconsistent
    hunclaimed (mem_of_getElem? hi) hshare1
  obtain ⟨hmem2, hshort2, hshare2⟩ := h.shareIdentity_binary hconsistent
    hunclaimed (mem_of_getElem? hj) hshare2
  have hshare : policy.shareIdentity process1.binary process2.binary :=
    hloadable.classes.trans _ (htaken hmem1) pb hpb _ (htaken hmem2)
      (hloadable.classes.symm pb hpb _ (htaken hmem1) hshare1) hshare2
  rw [hconsistent.processes] at hids
  rw [hshort1, hshort2] at hshorts
  rw [AppIdPolicy.shareIdentity, hids, hshorts] at hshare
  cases hshare

end

end NewestRun

/-- Of two processes one of which has just been loaded, both the application
identifiers and the fixed short identifiers differ. Under `Loadable`, one
process is loaded for every identity, from a binary with the highest version. -/
theorem loadProcessObjects_identities (create : Creator M X)
    (machine : SequentialProcessLoaderMachine M X) (policy : AppIdPolicy X)
    (hpolicy : machine.policy = some policy) (hconsistent : policy.Consistent) :
    (∀ (i j : ℕ) (process1 process2 : LoadedProcess X), i ≠ j →
      (machine.loadProcessObjects create).procs[i]? = some (some process1) →
      (machine.loadProcessObjects create).procs[j]? = some (some process2) →
      (machine.procs[i]? = some (some process1) ∧ machine.procs[j]? = some (some process2)) ∨
        policy.Distinct process1 process2) ∧
    (Loadable create policy (discovered machine.procBinaries) machine.procs →
      ∀ pb ∈ discovered machine.procBinaries, ∃ (i : ℕ) (process : LoadedProcess X),
          (machine.loadProcessObjects create).procs[i]? = some (some process) ∧
          policy.shareIdentityProcess pb process = true ∧
          process.binary ∈ discovered machine.procBinaries ∧
          (∀ other ∈ discovered machine.procBinaries, policy.shareIdentity pb other = true →
            binaryVersion other ≤ binaryVersion process.binary) ∧
          ∀ (j : ℕ) (process' : LoadedProcess X), (machine.loadProcessObjects create).procs[j]? =
              some (some process') → policy.shareIdentityProcess pb process' = true → j = i) := by
  rw [loadProcessObjects_procs]
  have hunique := (UniqueSince.refl policy machine.procs).loadBinaries create
    hconsistent machine.procBinaries hpolicy
  refine ⟨hunique.distinct, ?_⟩
  intro hloadable pb hpb
  have htaken : Taken policy.shareIdentity binaryVersion
      (discovered machine.procBinaries) [] (discovered machine.procBinaries) :=
    Taken.nil _
  have hloaded := (Loaded.refl policy machine.procs).loadBinaries hconsistent
    hloadable machine.procBinaries hpolicy htaken
  have hsubset : select policy.shareIdentity binaryVersion (discovered machine.procBinaries) [] ⊆
        discovered machine.procBinaries := fun _ hmem =>
    mem_all_of_mem_select hloadable.classes htaken hmem
  have hcovers := select_covers hloadable.classes htaken
  obtain ⟨newest, hnewest, hshare, -⟩ := hcovers pb hpb
  obtain ⟨process, hmem, rfl, hshort⟩ := hloaded.loaded newest hnewest
  obtain ⟨i, hi⟩ := mem_iff_getElem?.mp hmem
  have hshareProcess : policy.shareIdentityProcess pb process := by
    rw [AppIdPolicy.shareIdentityProcess_eq hconsistent pb hshort]
    exact hshare
  refine ⟨i, process, hi, hshareProcess, hsubset hnewest, ?_, ?_⟩
  · intro other hother hsharesOther
    -- What is loaded for the other binary stands in the same slot.
    obtain ⟨newest', hnewest', hshare', hversion⟩ := hcovers other hother
    obtain ⟨process', hmem', rfl, hshort'⟩ := hloaded.loaded newest' hnewest'
    obtain ⟨j, hj⟩ := mem_iff_getElem?.mp hmem'
    have hshareProcess' : policy.shareIdentityProcess pb process' := by
      rw [AppIdPolicy.shareIdentityProcess_eq hconsistent pb hshort']
      exact hloadable.classes.trans pb hpb other hother _ (hsubset hnewest') hsharesOther hshare'
    obtain rfl := hunique.slot_unique hconsistent hloadable hloaded hsubset hpb
      hi hj hshareProcess hshareProcess'
    obtain rfl : process = process' := by
      rw [hi] at hj
      exact Option.some.inj (Option.some.inj hj)
    exact hversion
  · intro j process' hj hshare'
    exact hunique.slot_unique hconsistent hloadable hloaded hsubset hpb hj hi hshare' hshareProcess

/-! ### A board with three binaries -/

/-- A binary that consists of a Program header; the footers tell applications
apart. -/
def sampleBinary (application : Byte) (version : BitVec 32) : ProcessBinary where
  flash := ⟨0, []⟩
  footers := [application]
  header := .v2 {
    base := ⟨2, 16, 16, 1, 0⟩
    main := none
    program := some ⟨0, 0, 0, 0, version⟩
    packageName := none
    writeableRegions := none
    fixedAddresses := none
    permissions := none
    storagePermissions := none
    kernelVersion := none
    shortId := none }
  credential := none

def samplePolicy : AppIdPolicy Unit where
  differentIdentifier pb1 pb2 := pb1.footers != pb2.footers
  differentIdentifierProcess pb process := pb.footers != process.binary.footers
  differentIdentifierProcesses process1 process2 :=
    process1.binary.footers != process2.binary.footers
  toShortId _ := .locallyUnique

theorem samplePolicy_consistent : samplePolicy.Consistent where
  symm _ _ := bne_comm
  binary_process _ _ := rfl
  processes _ _ := rfl

def sampleMachine (procs : List (Option (LoadedProcess Unit)))
    (procBinaries : List (Option ProcessBinary)) : SequentialProcessLoaderMachine Unit Unit where
  procs
  procBinaries
  flash := ⟨0, []⟩
  appMemory := ()
  deferredCall := false
  policy := some samplePolicy
  state := some .loadProcesses
  checking := none
  notifications := []
  restarts := false

def sampleCreate : Creator Unit Unit := fun _ _ _ _ => .ok ((), some ())

/-- Two versions of one application and a second application, with a third
one that is running. -/
def sampleBoard : SequentialProcessLoaderMachine Unit Unit :=
  sampleMachine [some ⟨sampleBinary 3 1, .locallyUnique, ()⟩, none, none]
    [some (sampleBinary 1 1), none, some (sampleBinary 2 5), some (sampleBinary 1 2)]

theorem sampleBoard_loadable :
    Loadable sampleCreate samplePolicy (discovered sampleBoard.procBinaries) sampleBoard.procs where
  classes := ⟨by decide, by decide, by decide⟩
  unclaimed := by
    intro pb hpb process hprocess
    obtain rfl : process = ⟨sampleBinary 3 1, .locallyUnique, ()⟩ := by
      simpa [sampleBoard, sampleMachine] using hprocess
    revert pb
    decide
  creates _ _ _ _ _ := ⟨(), (), rfl⟩
  slots := by decide

theorem loadProcessObjects_identities_sampleBoard : samplePolicy.Consistent ∧
      ∃ (i : ℕ) (process : LoadedProcess Unit),
        (sampleBoard.loadProcessObjects sampleCreate).procs[i]? = some (some process) ∧
        samplePolicy.shareIdentityProcess (sampleBinary 1 1) process = true ∧
        2 ≤ binaryVersion process.binary := by
  obtain ⟨i, process, hi, hshare, -, hnewest, -⟩ :=
    (loadProcessObjects_identities sampleCreate sampleBoard samplePolicy rfl
      samplePolicy_consistent).2 sampleBoard_loadable (sampleBinary 1 1) (by decide)
  exact ⟨samplePolicy_consistent, i, process, hi, hshare,
    hnewest (sampleBinary 1 2) (by decide) (by decide)⟩

/-- The loader does not look at pairs of processes that were there before: two
with one identifier stay. -/
theorem loaded_before_not_distinct : ∃ machine : SequentialProcessLoaderMachine Unit Unit,
      machine.policy = some samplePolicy ∧ samplePolicy.Consistent ∧
      ∃ (i j : ℕ) (process1 process2 : LoadedProcess Unit), i ≠ j ∧
        (machine.loadProcessObjects sampleCreate).procs[i]? = some (some process1) ∧
        (machine.loadProcessObjects sampleCreate).procs[j]? = some (some process2) ∧
        ¬ samplePolicy.Distinct process1 process2 := by
  refine ⟨sampleMachine [some ⟨sampleBinary 3 1, .locallyUnique, ()⟩,
    some ⟨sampleBinary 3 1, .locallyUnique, ()⟩] [], rfl,
    samplePolicy_consistent, 0, 1, _, _, by decide, rfl, rfl, ?_⟩
  rintro ⟨hids, -⟩
  cases hids

end SequentialProcessLoaderMachine

end TockKernel.Loading

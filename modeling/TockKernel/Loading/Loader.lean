import TockKernel.Loading.Checker
import TockKernel.Loading.Objects

/-!
# The asynchronous process loader

The `SequentialProcessLoaderMachine` of `kernel/src/process_loading.rs` as it is
driven by deferred calls and by the answers of the credential checker, and when
discovery ends, here and in the synchronous loader.
-/

namespace TockKernel.Loading

open Tbf

variable {M X : Type}

namespace SequentialProcessLoaderMachine

variable (machine : SequentialProcessLoaderMachine M X)

def findOpenProcessBinarySlot : Option ℕ :=
  machine.procBinaries.findIdx? Option.isNone

/-- The next entry of the flash. A binary goes to the checker, which has a
policy and so takes it. -/
def loadAndCheck : SequentialProcessLoaderMachine M X :=
  match discoverProcessBinary machine.flash with
  | .ok (flash, pb) => { machine with flash, checking := some pb }
  | .error (flash, error) =>
    if error.endsDiscovery then
      { machine with flash, state := some .loadProcesses, deferredCall := true }
    else
      notify { machine with flash, deferredCall := true }
        (.processLoaded (.error (.binaryError error)))

def handleDeferredCall (create : Creator M X) (machine : SequentialProcessLoaderMachine M X) :
    SequentialProcessLoaderMachine M X :=
  match machine.state with
  | some .discoverProcessBinaries => machine.loadAndCheck
  | some .loadProcesses => machine.loadProcessObjects create
  | none => machine

def done (pb : ProcessBinary) (result : CheckAnswer) : SequentialProcessLoaderMachine M X :=
  let machine :=
    match result with
    | .ok credential =>
      match machine.findOpenProcessBinarySlot with
      | some index =>
        { machine with
          procBinaries :=
            machine.procBinaries.set index (some { pb with credential }) }
      | none => machine.notify (.processLoaded (.error .noProcessSlot))
    | .error error =>
      machine.notify (.processLoaded (.error (.checkError error)))
  { machine with deferredCall := true }

def answered (answer : CheckAnswer) : SequentialProcessLoaderMachine M X :=
  match machine.checking with
  | some pb => { machine with checking := none }.done pb answer
  | none => machine

def round (create : Creator M X) (answer : CheckAnswer)
    (machine : SequentialProcessLoaderMachine M X) : SequentialProcessLoaderMachine M X :=
  if machine.deferredCall then
    (handleDeferredCall create { machine with deferredCall := false }).answered answer
  else
    machine

def rounds (create : Creator M X) (answers : ℕ → CheckAnswer) :
    ℕ → SequentialProcessLoaderMachine M X → SequentialProcessLoaderMachine M X
  | 0, machine => machine
  | n + 1, machine => (rounds create answers n machine).round create (answers n)

/-! ## The end of discovery -/

section Rounds

variable {machine : SequentialProcessLoaderMachine M X} {flash : FlashSlice}

theorem done_state (pb : ProcessBinary) (result : CheckAnswer) :
    (machine.done pb result).state = machine.state := by
  unfold done
  split
  · split <;> rfl
  · rfl

theorem done_flash (pb : ProcessBinary) (result : CheckAnswer) :
    (machine.done pb result).flash = machine.flash := by
  unfold done
  split
  · split <;> rfl
  · rfl

structure Discovering (machine : SequentialProcessLoaderMachine M X)
    (flash : FlashSlice) : Prop where
  state : machine.state = some .discoverProcessBinaries
  deferredCall : machine.deferredCall = true
  flash : machine.flash = flash

variable (create : Creator M X) (answer : CheckAnswer)

theorem answered_state : (machine.answered answer).state = machine.state := by
  unfold answered
  split
  · exact done_state _ answer
  · rfl

theorem answered_flash : (machine.answered answer).flash = machine.flash := by
  unfold answered
  split
  · exact done_flash _ answer
  · rfl

theorem answered_deferredCall (h : machine.deferredCall ∨ machine.checking ≠ none) :
    (machine.answered answer).deferredCall := by
  unfold answered
  split
  next => rfl
  next hnone => exact h.resolve_right (fun hsome => hsome hnone)

theorem loadAndCheck_cases (machine : SequentialProcessLoaderMachine M X) :
    (nextEntry machine.flash = some machine.loadAndCheck.flash ∧
      machine.loadAndCheck.state = machine.state ∧ (machine.loadAndCheck.deferredCall ∨
        machine.loadAndCheck.checking ≠ none)) ∨ (nextEntry machine.flash = none ∧
      machine.loadAndCheck.state = some .loadProcesses) := by
  cases hdiscover : discoverProcessBinary machine.flash with
  | ok found => simp [loadAndCheck, nextEntry, hdiscover]
  | error failure =>
    cases hends : failure.2.endsDiscovery with
    | true => simp [loadAndCheck, nextEntry, hdiscover, hends]
    | false => simp [loadAndCheck, nextEntry, hdiscover, hends, notify]

theorem Discovering.round (h : Discovering machine flash) : (∃ rest, nextEntry flash = some rest ∧
      Discovering (machine.round create answer) rest) ∨ (nextEntry flash = none ∧
      (machine.round create answer).state ≠ some .discoverProcessBinaries) := by
  obtain ⟨hstate, hdeferred, rfl⟩ := h
  have hround : machine.round create answer =
      ({ machine with deferredCall := false }.loadAndCheck).answered answer := by
    rw [SequentialProcessLoaderMachine.round, if_pos hdeferred, handleDeferredCall]
    simp [hstate]
  rw [hround]
  obtain ⟨hnext, hsame, hpending⟩ | ⟨hnext, hload⟩ :=
    loadAndCheck_cases { machine with deferredCall := false }
  · refine .inl ⟨_, hnext, ?_, ?_, ?_⟩
    · rw [answered_state, hsame]
      exact hstate
    · exact answered_deferredCall answer hpending
    · exact answered_flash answer
  refine .inr ⟨hnext, ?_⟩
  rw [answered_state, hload]
  simp

theorem round_state_ne (h : machine.state ≠ some .discoverProcessBinaries) :
    (machine.round create answer).state ≠ some .discoverProcessBinaries := by
  unfold round
  split
  · rw [answered_state, handleDeferredCall]
    split
    next hstate => exact absurd hstate h
    next => simp [loadProcessObjects]
    next => exact h
  · exact h

theorem rounds_of_walk (answers : ℕ → CheckAnswer) (h : Discovering machine flash) (n : ℕ) :
    (∃ rest, walk n flash = some rest ∧ Discovering (rounds create answers n machine) rest) ∨
    (walk n flash = none ∧ (rounds create answers n machine).state ≠
        some .discoverProcessBinaries) := by
  induction n with
  | zero => exact .inl ⟨flash, rfl, h⟩
  | succ n ih =>
    rw [walk_succ]
    obtain ⟨rest, hwalk, hrest⟩ | ⟨hwalk, hstate⟩ := ih
    · rw [hwalk]
      exact hrest.round create (answers n)
    · rw [hwalk]
      exact .inr ⟨rfl, round_state_ne create (answers n) hstate⟩

theorem leaves_discovery_iff (answers : ℕ → CheckAnswer)
    (machine : SequentialProcessLoaderMachine M X) (n : ℕ) :
    (rounds create answers n machine.start).state ≠ some .discoverProcessBinaries ↔
      walk n machine.flash = none := by
  have hstart : Discovering machine.start machine.flash := ⟨rfl, rfl, rfl⟩
  obtain ⟨_, hwalk, hrest⟩ | ⟨hwalk, hstate⟩ := rounds_of_walk create answers hstart n
  · rw [hwalk, hrest.state]
    simp
  · exact ⟨fun _ => hwalk, fun _ => hstate⟩

end Rounds

end SequentialProcessLoaderMachine

open SequentialProcessLoaderMachine

/-- Discovery ends, in the synchronous loader and in the asynchronous one,
unless the walk over the entries comes to an entry of length 0. -/
theorem discovery_terminates_iff (flash : FlashSlice) :
    ((∀ (M X : Type) (create : Creator M X) (memory : M)
        (procs : ProcessTable X), ∃ calls result,
          loadProcessesFromFlash create calls flash memory procs 0 = some result) ↔
      NoEmptyEntry flash) ∧ (∀ (M X : Type) (create : Creator M X) (answers : ℕ → CheckAnswer)
        (machine : SequentialProcessLoaderMachine M X), (∃ calls, (rounds create answers calls
          { machine with flash := flash }.start).state ≠ some .discoverProcessBinaries) ↔
        NoEmptyEntry flash) ∧
    ((∀ rest next, Reaches flash rest → nextEntry rest = some next →
        next.length < rest.length) ↔
      NoEmptyEntry flash) := by
  refine ⟨?_, ?_, shortens_iff flash⟩
  · rw [← walk_ends_iff]
    constructor
    · intro h
      obtain ⟨calls, result, hreturns⟩ :=
        h Unit Unit (fun _ memory _ _ => .ok (memory, none)) () [none]
      exact ⟨calls, walk_eq_none_of_returns (by simp) hreturns⟩
    · rintro ⟨calls, hend⟩ M X create memory procs
      exact ⟨calls, loadProcessesFromFlash_returns create hend memory procs 0⟩
  · intro M X create answers machine
    rw [← walk_ends_iff]
    exact exists_congr (leaves_discovery_iff create answers _)

def emptyEntryFlash : FlashSlice := ⟨0, [2, 0, 0, 0, 0, 0, 0, 0]⟩

/-- On a flash with an empty entry neither loader comes to an end. -/
theorem discovery_diverges : (∀ calls, loadProcessesFromFlash sampleCreate calls emptyEntryFlash ()
      [none] 0 = none) ∧ ∀ (answers : ℕ → CheckAnswer) (calls : ℕ),
      (rounds sampleCreate answers calls
        { sampleMachine [none] [none] with flash := emptyEntryFlash }.start).state =
          some .discoverProcessBinaries := by
  have hempty : EmptyEntry emptyEntryFlash := ⟨[2, 0, 0, 0, 0, 0, 0, 0], by decide, by decide⟩
  refine ⟨fun calls => loadProcessesFromFlash_of_emptyEntry sampleCreate hempty
    () (by decide) calls, ?_⟩
  intro answers calls
  by_contra hleaves
  exact walk_ne_none .refl hempty calls
    ((leaves_discovery_iff sampleCreate answers _ calls).mp hleaves)

end TockKernel.Loading

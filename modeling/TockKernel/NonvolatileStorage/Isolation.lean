import TockKernel.NonvolatileStorage.Model

/-!
# Whose bytes the nonvolatile storage driver moves

A call of the device serves a request of a process if it is made at the address
of the request, inside the userspace range, and a write carries the bytes that
the process shared. The queue keeps the arguments of a command but not its
bytes, and a request that the kernel makes from inside its callback lets a
queued command be taken for the one in progress. In runs without these two
every call serves the request it is made for, and its result goes to the process
that made it.
-/

namespace TockKernel.NonvolatileStorage

open Capsule

variable {ι : Type*}

theorem length_load (storage : ℕ → Byte) (address length : ℕ) :
    (load storage address length).length = length := by
  simp [load]

variable {buffer bytes : List Byte} {layout : Layout} {offset length : ℕ}
  {s : Capsule ι} {accepts : DriverCall ι → Bool} {p : ι}

theorem take_overwrite (h : n ≤ bytes.length) : (overwrite buffer bytes).take n = bytes.take n := by
  rw [overwrite, List.take_append_of_le_length h]

theorem length_overwrite (h : bytes.length ≤ buffer.length) :
    (overwrite buffer bytes).length = buffer.length := by
  rw [overwrite, List.length_append, List.length_drop]
  omega

/-! ## Ranges -/

/-- The userspace range lies in the address space, and the sum of two lengths
that are within it does not wrap around. -/
structure Layout.Fits (layout : Layout) : Prop where
  range : layout.userspaceStartAddress + layout.userspaceLength ≤ 2 ^ 32
  sum : 2 * layout.userspaceLength ≤ 2 ^ 32

theorem Layout.Fits.inBounds (hfits : layout.Fits)
    (h : userspaceInBounds layout offset length) : offset < layout.userspaceLength ∧
      offset + length ≤ layout.userspaceLength := by
  have hsum := hfits.sum
  simp only [userspaceInBounds, Bool.not_eq_true', Bool.or_eq_false_iff,
    decide_eq_false_iff_not, ge_iff_le, gt_iff_lt, not_le] at h
  have hwraps : wrappingAdd offset length = offset + length := Nat.mod_eq_of_lt (by omega)
  omega

def Request.InRange (layout : Layout) (request : Request) : Prop :=
  request.offset < layout.userspaceLength ∧ request.offset + request.length ≤ layout.userspaceLength

/-- The length is cut to that of the shared buffer, and to that of the
capsule's. -/
structure Serves (layout : Layout) (call : DriverCall ι) (request : Request) : Prop where
  kind : request.command =
    if call.write then .userspaceWrite else .userspaceRead
  address : call.address = layout.userspaceStartAddress + request.offset
  length : call.length = min (min request.length request.allowed.length) call.buffer.length
  inside : call.address + call.length ≤ layout.userspaceStartAddress + layout.userspaceLength
  bytes : call.write = true → call.buffer.take call.length = request.allowed.take call.length

def callFor (layout : Layout) (request : Request) (p : ι) (buffer : List Byte) : DriverCall ι where
  write := request.command = .userspaceWrite
  buffer := buffer
  address := wrappingAdd request.offset layout.userspaceStartAddress
  length := min (min request.length request.allowed.length) buffer.length
  origin := .app p request

theorem serves_callFor (hfits : layout.Fits) {request : Request} (hrange : request.InRange layout)
    (hcommand : request.command = .userspaceRead ∨ request.command = .userspaceWrite) (p : ι)
    (hbytes : request.command = .userspaceWrite →
      buffer.take (min (min request.length request.allowed.length) buffer.length) =
      request.allowed.take (min (min request.length request.allowed.length) buffer.length)) :
    Serves layout (callFor layout request p buffer) request := by
  have haddr : wrappingAdd request.offset layout.userspaceStartAddress =
      layout.userspaceStartAddress + request.offset := by
    have hend := hfits.range
    have hoffset := hrange.1
    rw [wrappingAdd, Nat.mod_eq_of_lt (by omega), Nat.add_comm]
  refine ⟨?_, haddr, rfl, ?_, ?_⟩
  · rcases hcommand with hread | hwrite <;> simp [callFor, *]
  · have hend := hrange.2
    simp only [callFor]
    omega
  · intro hwrite
    exact hbytes (by simpa [callFor] using hwrite)

/-! ## The invariant -/

def Origin.user : Origin ι → NonvolatileUser ι
  | .app processid _ => .app processid
  | .kernel => .kernel

/-- A command that waits is a read, with the arguments it was made with. -/
structure Queued (layout : Layout) (app : App) : Prop where
  command : app.command = .userspaceRead
  requested : app.request.command = .userspaceRead
  offset : app.offset = app.request.offset
  length : app.length = min app.request.length app.request.allowed.length
  range : app.request.InRange layout

structure Invariant (layout : Layout) (s : Capsule ι) : Prop where
  user : ∀ call, s.driver = some call → s.currentUser = some call.origin.user
  away : ∀ p, s.currentUser = some (.app p) → s.buffer = none
  present : s.refused = false → (∀ p, s.currentUser ≠ some (.app p)) → s.buffer.isSome = true
  serves : ∀ call p request, s.driver = some call →
    call.origin = .app p request → Serves layout call request
  queued : ∀ p, (s.apps p).pendingCommand = true → Queued layout (s.apps p)

theorem Invariant.driver_eq_none (hs : Invariant layout s) (hidle : s.currentUser = none) :
    s.driver = none := by
  cases hdriver : s.driver with
  | none => rfl
  | some call =>
    have huser := hs.user call hdriver
    rw [hidle] at huser
    cases huser

theorem Invariant.of_idle (hdriver : s.driver = none)
    (haway : ∀ p, s.currentUser = some (.app p) → s.buffer = none)
    (hpresent : s.refused = false → (∀ p, s.currentUser ≠ some (.app p)) → s.buffer.isSome)
    (hqueued : ∀ p, (s.apps p).pendingCommand → Queued layout (s.apps p)) : Invariant layout s where
  user call hcall := by simp [hdriver] at hcall
  away := haway
  present := hpresent
  serves call _ _ hcall := by simp [hdriver] at hcall
  queued := hqueued

/-! ## Calls of the device -/

theorem callDriver_cases (accepts : DriverCall ι → Bool) (s : Capsule ι) (call : DriverCall ι) :
    (s.driver = none ∧ s.callDriver accepts call = (.ok (), { s with driver := some call })) ∨
      s.callDriver accepts call = (.error .busy, { s with refused := true }) := by
  by_cases h : (s.driver.isNone && accepts call)
  · refine .inl ⟨?_, if_pos h⟩
    simp only [Bool.and_eq_true, Option.isNone_iff_eq_none] at h
    exact h.1
  · exact .inr (if_neg h)

theorem userspaceCallDriver_cases (layout : Layout)
    (accepts : DriverCall ι → Bool) (s : Capsule ι) (request : Request) (p : ι)
    (hcommand : request.command = .userspaceRead ∨ request.command = .userspaceWrite) :
    let result := s.userspaceCallDriver layout accepts request.command
      request.offset (min request.length request.allowed.length)
      (.app p request)
    (s.buffer = none ∧ result = (.error .reserve, s)) ∨ ∃ buffer, s.buffer = some buffer ∧
        ((s.driver = none ∧ result = (.ok (), { s with
            buffer := none
            driver := some (callFor layout request p buffer) })) ∨
          result = (.error .busy, { s with buffer := none, refused := true })) := by
  intro result
  cases hbuf : s.buffer with
  | none => exact .inl ⟨rfl, by simp [result, userspaceCallDriver, hbuf]⟩
  | some buffer =>
    refine .inr ⟨buffer, rfl, ?_⟩
    have hres : result = callDriver accepts { s with buffer := none }
        (callFor layout request p buffer) := by
      rcases hcommand with hread | hwrite
      all_goals simp [result, userspaceCallDriver, callFor, *]
    rw [hres]
    exact callDriver_cases accepts { s with buffer := none } _

theorem Invariant.userspaceCall (request : Request)
    (hcommand : request.command = .userspaceRead ∨ request.command = .userspaceWrite)
    (hdriver : s.driver = none) (huser : s.currentUser = some (.app p))
    (hqueued : ∀ q, (s.apps q).pendingCommand → Queued layout (s.apps q))
    (hserves : ∀ buffer, s.buffer = some buffer →
      Serves layout (callFor layout request p buffer) request) :
    Invariant layout (s.userspaceCallDriver layout accepts request.command
      request.offset (min request.length request.allowed.length) (.app p request)).2 := by
  rcases userspaceCallDriver_cases layout accepts s request p hcommand with
    ⟨hnone, hres⟩ | ⟨buffer, hbuf, ⟨-, hres⟩ | hres⟩ <;>
    rw [hres]
  · exact .of_idle hdriver (fun _ _ => hnone) (fun _ hother => absurd huser (hother p)) hqueued
  · refine ⟨?_, fun _ _ => rfl, fun _ hother => absurd huser (hother p), ?_, hqueued⟩
    · rintro call ⟨⟩
      exact huser
    · rintro call q request' ⟨⟩ ⟨⟩
      exact hserves buffer hbuf
  · exact .of_idle hdriver (fun _ _ => rfl) (fun _ hother => absurd huser (hother p)) hqueued

theorem Invariant.kernelCall {call : DriverCall ι}
    (horigin : call.origin = .kernel) (hdriver : s.driver = none)
    (huser : s.currentUser = some .kernel) (hpresent : s.refused = false → s.buffer.isSome)
    (hqueued : ∀ q, (s.apps q).pendingCommand → Queued layout (s.apps q)) :
    Invariant layout (s.callDriver accepts call).2 := by
  have haway : ∀ p, s.currentUser = some (.app p) → s.buffer = none := by
    intro p hp
    rw [huser] at hp
    cases hp
  rcases callDriver_cases accepts s call with ⟨-, hres⟩ | hres <;>
    rw [hres]
  · refine ⟨?_, haway, fun hrefused _ => hpresent hrefused, ?_, hqueued⟩
    · rintro call' ⟨⟩
      rw [horigin]
      exact huser
    · rintro call' q request ⟨⟩ happ
      rw [horigin] at happ
      cases happ
  · exact .of_idle hdriver haway (by rintro ⟨⟩) hqueued

/-! ## Commands of the processes -/

def Capsule.requestOf (s : Capsule ι) (command : NonvolatileCommand)
    (offset length : ℕ) (p : ι) : Request :=
  ⟨command, offset, length, s.allowed p command⟩

def Capsule.begin (s : Capsule ι) (request : Request) (p : ι) : Capsule ι :=
  copyIn { s with currentUser := some (.app p) } request.command p
    (min request.length request.allowed.length)

theorem take_copied (kernelBuffer : List Byte) {activeLen : ℕ}
    (hactive : activeLen ≤ bytes.length) :
    let copied := overwrite kernelBuffer (bytes.take (min activeLen kernelBuffer.length))
    copied.take (min activeLen copied.length) = bytes.take (min activeLen copied.length) := by
  intro copied
  have htake : (bytes.take (min activeLen kernelBuffer.length)).length =
      min activeLen kernelBuffer.length := by
    rw [List.length_take]
    omega
  have hlen : copied.length = kernelBuffer.length :=
    length_overwrite (by rw [htake]; exact Nat.min_le_right _ _)
  rw [hlen, take_overwrite htake.ge, List.take_take, Nat.min_self]

theorem serves_begin (hfits : layout.Fits) (s : Capsule ι) {command : NonvolatileCommand}
    (hcommand : command = .userspaceRead ∨ command = .userspaceWrite)
    (hrange : (s.requestOf command offset length p).InRange layout) (buffer : List Byte)
    (hbuf : (s.begin (s.requestOf command offset length p) p).buffer = some buffer) :
    Serves layout (callFor layout (s.requestOf command offset length p) p buffer)
      (s.requestOf command offset length p) := by
  refine serves_callFor hfits hrange hcommand p ?_
  rintro (rfl : command = .userspaceWrite)
  cases hold : s.buffer with
  | none => simp [begin, copyIn, hold] at hbuf
  | some kernelBuffer =>
    simp only [begin, requestOf, copyIn, hold, if_true, Option.map_some, Option.some.injEq] at hbuf
    obtain rfl := hbuf
    have hactive : min length (s.allowed p .userspaceWrite).length ≤
        (s.writeBuffer p).length := Nat.min_le_right _ _
    exact take_copied kernelBuffer hactive

theorem begin_frame (s : Capsule ι) (request : Request) (p : ι) : s.begin request p =
      { s with
        currentUser := some (.app p)
        buffer := (s.begin request p).buffer } := by
  unfold begin copyIn
  split <;> rfl

variable [DecidableEq ι]

def Capsule.enqueue (s : Capsule ι) (request : Request) (p : ι) : Capsule ι :=
  let app : App := ⟨true, request.command, request.offset,
    min request.length request.allowed.length, request⟩
  { s with apps := Function.update s.apps p app }

theorem enqueueUserspace_cases (hfits : layout.Fits) (accepts : DriverCall ι → Bool) (s : Capsule ι)
    (command : NonvolatileCommand) (offset length : ℕ) (p : ι) :
    let request := s.requestOf command offset length p
    let result := s.enqueueUserspace layout accepts command offset length p
    (∃ error, result = (.error error, s)) ∨ request.InRange layout ∧ s.buffer.isSome ∧
        ((s.currentUser = none ∧ result = (s.begin request p).userspaceCallDriver layout accepts
              request.command request.offset
              (min request.length request.allowed.length) (.app p request)) ∨
          ((∃ user, s.currentUser = some user) ∧ (s.apps p).pendingCommand = false ∧
            result = (.ok (), s.enqueue request p))) := by
  intro request result
  by_cases hbounds : userspaceInBounds layout offset length
  swap
  · exact .inl ⟨.inval, by simp [result, enqueueUserspace, hbounds]⟩
  by_cases hbuf : ((s.allowed p command).length = 0 || s.buffer.isNone)
  · exact .inl ⟨.reserve, by
      simp only [result, enqueueUserspace, hbounds, hbuf]
      rfl⟩
  have hsome : s.buffer.isSome := by
    cases hcase : s.buffer with
    | none => simp [hcase] at hbuf
    | some _ => rfl
  cases huser : s.currentUser with
  | none =>
    refine .inr ⟨hfits.inBounds hbounds, hsome, .inl ⟨rfl, ?_⟩⟩
    simp only [result, enqueueUserspace, hbounds, hbuf, huser]
    rfl
  | some user =>
    by_cases hpending : (s.apps p).pendingCommand
    · exact .inl ⟨.nomem, by
        simp only [result, enqueueUserspace, hbounds, hbuf, huser, hpending]
        rfl⟩
    refine .inr ⟨hfits.inBounds hbounds, hsome, .inr ⟨⟨user, rfl⟩, by simpa using hpending, ?_⟩⟩
    simp only [result, enqueueUserspace, enqueue, hbounds, hbuf, huser, hpending]
    rfl

theorem Invariant.enqueueUserspace (hfits : layout.Fits) (hs : Invariant layout s)
    {command : NonvolatileCommand} (hcommand : command = .userspaceRead ∨ command = .userspaceWrite)
    (hwrite : command = .userspaceWrite → s.currentUser ≠ some .kernel) : Invariant layout
      (s.enqueueUserspace layout accepts command offset length p).2 := by
  rcases enqueueUserspace_cases hfits accepts s command offset length p with
    ⟨_, hres⟩ |
    ⟨hrange, hsome, ⟨hidle, hres⟩ | ⟨⟨user, huser⟩, -, hres⟩⟩ <;>
    rw [hres]
  · exact hs
  · have hserves := serves_begin hfits s hcommand hrange
    refine Invariant.userspaceCall (s.requestOf command offset length p)
      hcommand ?_ ?_ ?_ hserves <;> rw [begin_frame]
    · exact hs.driver_eq_none hidle
    · exact hs.queued
  -- The buffer is there, so that the kernel is the user and this is a read.
  have hread : command = .userspaceRead := by
    refine hcommand.resolve_right fun hw => ?_
    cases user with
    | app q => rw [hs.away q huser] at hsome; simp at hsome
    | kernel => exact hwrite hw huser
  refine ⟨hs.user, hs.away, hs.present, hs.serves, ?_⟩
  intro q hq
  by_cases hqp : q = p
  · subst hqp
    simp only [enqueue, Function.update_self]
    exact ⟨hread, hread, rfl, rfl, hrange⟩
  · simp only [enqueue, Function.update_of_ne hqp] at hq ⊢
    exact hs.queued q hq

omit [DecidableEq ι] in
theorem Invariant.enqueueKernel (hs : Invariant layout s)
    (accepts : DriverCall ι → Bool) (request : KernelRequest) :
    Invariant layout (s.enqueueKernel layout accepts request).2 := by
  unfold Capsule.enqueueKernel
  split
  · exact ⟨hs.user, hs.away, hs.present, hs.serves, hs.queued⟩
  by_cases hidle : s.currentUser.isNone
  · rw [if_pos hidle]
    have hnone : s.currentUser = none := Option.isNone_iff_eq_none.mp hidle
    have hpresent : s.refused = false → s.buffer.isSome :=
      fun hrefused => hs.present hrefused (by simp [hnone])
    exact Invariant.kernelCall rfl (hs.driver_eq_none hnone) rfl hpresent hs.queued
  rw [if_neg hidle]
  split
  all_goals exact ⟨hs.user, hs.away, hs.present, hs.serves, hs.queued⟩

omit [DecidableEq ι] in
theorem enqueueKernel_idle (hidle : s.currentUser = none)
    (accepts : DriverCall ι → Bool) (request : KernelRequest) :
    (s.enqueueKernel layout accepts request).2.currentUser = none ∨
      (s.enqueueKernel layout accepts request).2.kernelBuffer = none := by
  unfold enqueueKernel
  split
  · exact .inl hidle
  refine .inr ?_
  simp only [hidle, Option.isNone_none, if_true]
  rcases callDriver_cases accepts _ _ with ⟨-, hres⟩ | hres <;>
    rw [hres]

/-! ## The queue -/

def Capsule.dequeue (s : Capsule ι) (p : ι) : Capsule ι :=
  { s with
    apps := Function.update s.apps p { s.apps p with pendingCommand := false }
    currentUser := some (.app p) }

theorem checkApps_cons_pending (hpending : (s.apps p).pendingCommand)
    (hqueued : Queued layout (s.apps p)) (accepts : DriverCall ι → Bool) (rest : List ι) :
    let request := (s.apps p).request
    checkApps layout accepts (p :: rest) s =
      match (s.dequeue p).userspaceCallDriver layout accepts request.command
          request.offset (min request.length request.allowed.length)
          (.app p request) with
      | (.ok (), s) => s
      | (.error _, s) => checkApps layout accepts rest s := by
  intro request
  have hcommand : (s.apps p).command = request.command :=
    hqueued.command.trans hqueued.requested.symm
  have hcall : (s.dequeue p).userspaceCallDriver layout accepts
      (s.apps p).command (s.apps p).offset (s.apps p).length (.app p request) =
      (s.dequeue p).userspaceCallDriver layout accepts request.command
        request.offset (min request.length request.allowed.length) (.app p request) := by
    rw [hcommand, hqueued.offset, hqueued.length]
  rw [checkApps, if_pos hpending, ← hcall]
  rfl

theorem Queued.dequeue (p : ι) (hqueued : ∀ q, (s.apps q).pendingCommand → Queued layout (s.apps q))
    (q : ι) (hq : ((s.dequeue p).apps q).pendingCommand) :
    Queued layout ((s.dequeue p).apps q) := by
  by_cases hqp : q = p
  · subst hqp
    simp [Capsule.dequeue] at hq
  · simp only [Capsule.dequeue, Function.update_of_ne hqp] at hq ⊢
    exact hqueued q hq

theorem Invariant.checkApps (hfits : layout.Fits) (accepts : DriverCall ι → Bool)
    (processes : List ι) (hs : Invariant layout s) (hdriver : s.driver = none) :
    Invariant layout (s.checkApps layout accepts processes) := by
  induction processes generalizing s with
  | nil => exact hs
  | cons p rest ih =>
    by_cases hpending : (s.apps p).pendingCommand
    · have hqueued := hs.queued p hpending
      have hserves : ∀ buffer, s.buffer = some buffer →
          Serves layout (callFor layout (s.apps p).request p buffer) (s.apps p).request := by
        refine fun buffer _ => serves_callFor hfits hqueued.range
          (.inl hqueued.requested) p fun hwrite => ?_
        rw [hqueued.requested] at hwrite
        cases hwrite
      have hcall : Invariant layout ((s.dequeue p).userspaceCallDriver layout accepts _ _ _ _).2 :=
        Invariant.userspaceCall (s.apps p).request (.inl hqueued.requested)
          hdriver rfl (Queued.dequeue p hs.queued) hserves
      rw [checkApps_cons_pending hpending hqueued]
      rcases userspaceCallDriver_cases layout accepts (s.dequeue p)
          (s.apps p).request p (.inl hqueued.requested) with
        ⟨-, hres⟩ | ⟨buffer, -, ⟨-, hres⟩ | hres⟩ <;>
        rw [hres] at hcall ⊢
      · exact ih hcall hdriver
      · exact hcall
      · exact ih hcall hdriver
    · rw [checkApps, if_neg hpending]
      exact ih hs hdriver

/-- Taking up the next waiting request keeps the invariant. -/
theorem Invariant.checkQueue (hfits : layout.Fits) (accepts : DriverCall ι → Bool)
    (processes : List ι) (hs : Invariant layout s) (hidle : s.currentUser = none) :
    Invariant layout (s.checkQueue layout processes accepts) := by
  have hdriver := hs.driver_eq_none hidle
  have hpresent : s.refused = false → s.buffer.isSome :=
    fun hrefused => hs.present hrefused (by simp [hidle])
  unfold Capsule.checkQueue
  by_cases hpending : s.kernelPendingCommand
  · rw [if_pos hpending]
    cases s.kernelBuffer with
    | none => exact hs
    | some kernelBuffer =>
      dsimp only
      split
      · exact Invariant.kernelCall rfl hdriver rfl hpresent hs.queued
      · exact Invariant.kernelCall rfl hdriver rfl hpresent hs.queued
      · exact .of_idle hdriver (by rintro p ⟨⟩) (fun hrefused _ => hpresent hrefused) hs.queued
  · rw [if_neg hpending]
    exact hs.checkApps hfits accepts processes hdriver

theorem checkApps_eq_self (hempty : ∀ p, (s.apps p).pendingCommand = false)
    (accepts : DriverCall ι → Bool) (processes : List ι) :
    s.checkApps layout accepts processes = s := by
  induction processes with
  | nil => rfl
  | cons p rest ih =>
    rw [checkApps, if_neg (by simp [hempty])]
    exact ih

theorem checkQueue_eq_self (hempty : ∀ p, (s.apps p).pendingCommand = false)
    (hkernel : s.kernelBuffer = none) (accepts : DriverCall ι → Bool)
    (processes : List ι) : s.checkQueue layout processes accepts = s := by
  unfold checkQueue
  rw [hkernel, checkApps_eq_self hempty]
  split <;> rfl

end TockKernel.NonvolatileStorage

import TockKernel.Bytes
import TockKernel.Machine
import TockKernel.ProcessTypes

/-!
# The entropy adapters

A model of `Entropy8To32` and `Entropy32To8` of `capsules/core/src/rng.rs`. The
source calls an adapter, and the adapter its client, which takes as much as it
likes. As long as no client takes a word that it has left before, or a byte
before the first word has arrived, only what was read is handed out, and once.
-/

namespace TockKernel.Entropy

open List

inductive Continue where
  | more
  | done
  deriving DecidableEq

/-- What a client does when it is called: how often it asks for a value, and its
answer. -/
structure Client where
  takes : ℕ
  answer : Continue

/-- One `entropy_available` of the source, and what the client does in it. -/
structure Call (α : Type) where
  entropy : List α
  error : Except ErrorCode Unit
  client : Option Client

def Call.TakesNothing {α : Type} (call : Call α) : Prop :=
  ∀ client ∈ call.client, client.takes = 0

/-- The state of an adapter, what it has read from the source and what it has
handed to its client. -/
structure Trace (σ α β : Type) where
  state : σ
  read : List α
  handed : List β

section Adapter

variable {σ α β : Type}

def Trace.append (t t' : Trace σ α β) : Trace σ α β :=
  ⟨t'.state, t.read ++ t'.read, t.handed ++ t'.handed⟩

def draw (next : σ → Option β × σ) : ℕ → σ → List β × σ
  | 0, s => ([], s)
  | n + 1, s =>
    let (value, s) := next s
    let (values, s) := draw next n s
    (value.toList ++ values, s)

def adapter (new : σ) (entropyAvailable : σ → Call α → Continue × Trace σ α β) :
    Machine (Trace σ α β) (Call α) where
  Starts t := t = ⟨new, [], []⟩
  step t call := some (t.append (entropyAvailable t.state call).2)

end Adapter

/-! ## Four bytes to a word -/

structure Entropy8To32 where
  count : ℕ
  bytes : BitVec 32

namespace Entropy8To32

abbrev Traced := Trace Entropy8To32 Byte (BitVec 32)

def new : Entropy8To32 := ⟨0, 0⟩

def next (s : Entropy8To32) : Option (BitVec 32) × Entropy8To32 :=
  if s.count = 4 then (some s.bytes, { s with count := 0 }) else (none, s)

/-- The loop of `entropy_available`, with the bytes that it reads. -/
def fill : List Byte → Entropy8To32 → List Byte × Entropy8To32
  | [], s => ([], s)
  | val :: entropy, s =>
    if s.count < 4 then
      let result := s.bytes ||| val.setWidth 32 <<< (8 * s.count)
      let (read, s) := fill entropy ⟨s.count + 1, result⟩
      (val :: read, s)
    else
      ([], s)

def entropyAvailable (s : Entropy8To32) (call : Call Byte) : Continue × Traced :=
  match call.client, call.error with
  | none, _ => (.done, ⟨s, [], []⟩)
  | some client, .error _ =>
    let (words, s) := draw next client.takes s
    (client.answer, ⟨s, [], words⟩)
  | some client, .ok () =>
    let (read, s) := fill call.entropy s
    if s.count < 4 then
      (.more, ⟨s, read, []⟩)
    else
      let (words, s) := draw next client.takes s
      (client.answer, ⟨{ s with bytes := 0 }, read, words⟩)

def machine := adapter new entropyAvailable

def word : List Byte → BitVec 32
  | [] => 0
  | byte :: bytes => byte.setWidth 32 ||| word bytes <<< 8

theorem word_concat (bytes : List Byte) (byte : Byte) :
    word (bytes ++ [byte]) = word bytes ||| byte.setWidth 32 <<< (8 * bytes.length) := by
  induction bytes with
  | nil => simp [word]
  | cons first bytes ih =>
    simp [word, ih, BitVec.shiftLeft_or_distrib, BitVec.or_assoc, Nat.mul_add, BitVec.shiftLeft_add]

/-- What was read is cut into pieces of four bytes, the words handed out, up to the
bytes that are left. -/
def Packs (read left : List Byte) (handed : List (BitVec 32)) : Prop :=
  ∃ pieces : List (List Byte), (∀ piece ∈ pieces, piece.length = 4) ∧
    handed = pieces.map word ∧ read = pieces.flatten ++ left

section

variable {t : Traced} {read left more : List Byte} {handed : List (BitVec 32)}
  {call : Call Byte} {n : ℕ}

theorem Packs.append (h : Packs read left handed) : Packs (read ++ more) (left ++ more) handed := by
  obtain ⟨pieces, hfour, hhanded, rfl⟩ := h
  exact ⟨pieces, hfour, hhanded, append_assoc ..⟩

theorem Packs.handOut (h : Packs read left handed) (hlen : left.length = 4) :
    Packs read [] (handed ++ [word left]) := by
  obtain ⟨pieces, hfour, rfl, rfl⟩ := h
  refine ⟨pieces ++ [left], ?_, by simp, by simp⟩
  intro piece hpiece
  rcases mem_append.mp hpiece with hold | hnew
  · exact hfour piece hold
  · rw [mem_singleton.mp hnew, hlen]

theorem fill_spec (entropy : List Byte) (h : left.length ≤ 4) :
    ∃ read, (left ++ read).length ≤ 4 ∧ fill entropy ⟨left.length, word left⟩ =
      (read, ⟨(left ++ read).length, word (left ++ read)⟩) := by
  induction entropy generalizing left with
  | nil => exact ⟨[], by simpa using h, by simp [fill]⟩
  | cons val entropy ih =>
    by_cases hroom : left.length < 4
    · have hnext : (left ++ [val]).length ≤ 4 := by simpa using hroom
      obtain ⟨read, hle, hfill⟩ := ih hnext
      refine ⟨val :: read, by simpa using hle, ?_⟩
      simp only [word_concat, length_append, length_singleton] at hfill
      simp [fill, hroom, hfill, Nat.add_assoc, Nat.add_comm 1]
    · exact ⟨[], by simpa using h, by simp [fill, hroom]⟩

theorem fill_four (entropy : List Byte) (bytes : BitVec 32) :
    fill entropy ⟨4, bytes⟩ = ([], ⟨4, bytes⟩) := by
  cases entropy <;> simp [fill]

theorem draw_of_ne {s : Entropy8To32} (h : s.count ≠ 4) : draw next n s = ([], s) := by
  induction n with
  | zero => rfl
  | succ n ih => simp [draw, next, h, ih]

theorem draw_four (bytes : BitVec 32) : draw next (n + 1) ⟨4, bytes⟩ = ([bytes], ⟨0, bytes⟩) := by
  simp [draw, next, draw_of_ne]

structure Packed (t : Traced) (left : List Byte) : Prop where
  packs : Packs t.read left t.handed
  count : t.state.count = left.length
  count_le : left.length ≤ 4
  bytes : left.length ≠ 4 → t.state.bytes = word left

/-- The client takes nothing when the word that it is offered was offered before. -/
def Allowed (t : Traced) (call : Call Byte) : Prop :=
  t.state.count = 4 → call.TakesNothing

theorem Packed.available (h : Packed t left) (hallowed : Allowed t call) :
    ∃ left, Packed (t.append (entropyAvailable t.state call).2) left := by
  obtain ⟨entropy, error, client⟩ := call
  obtain ⟨⟨count, bytes⟩, _, handed⟩ := t
  obtain ⟨hpacks, rfl : count = _, hle, hbytes⟩ := h
  match client, error with
  | none, _ =>
    exact ⟨left, by simpa [entropyAvailable, Trace.append] using hpacks, rfl, hle, hbytes⟩
  | some client, .error e =>
    have hdraw : draw next client.takes ⟨left.length, bytes⟩ = ([], ⟨left.length, bytes⟩) := by
      by_cases hfull : left.length = 4
      · rw [hallowed hfull client rfl, draw]
      · exact draw_of_ne hfull
    simp only [entropyAvailable, hdraw, Trace.append, append_nil]
    exact ⟨left, hpacks, rfl, hle, hbytes⟩
  | some client, .ok () =>
    by_cases hfull : left.length = 4
    · -- the word was left before, and is zero by now
      simp only [entropyAvailable, hallowed hfull client rfl, hfull, fill_four, lt_irrefl, if_false,
        draw, Trace.append, append_nil]
      exact ⟨left, hpacks, hfull.symm, hle, absurd hfull⟩
    obtain rfl : bytes = word left := hbytes hfull
    obtain ⟨more, hmore, hfill⟩ := fill_spec entropy hle
    simp only [entropyAvailable, hfill, Trace.append]
    split_ifs with hfew
    · simp only [append_nil]
      exact ⟨left ++ more, hpacks.append, rfl, hmore, fun _ => rfl⟩
    have hfour : (left ++ more).length = 4 := by omega
    cases client.takes with
    | zero =>
      simp only [draw, append_nil]
      exact ⟨left ++ more, hpacks.append, rfl, hmore, absurd hfour⟩
    | succ n =>
      rw [hfour, draw_four]
      exact ⟨[], hpacks.append.handOut hfour, rfl, by simp, fun _ => rfl⟩

theorem Packed.run (h : machine.Run Allowed t) : ∃ left, Packed t left := by
  refine Machine.Run.invariant (P := fun t => ∃ left, Packed t left) h ?_ ?_
  · rintro t rfl
    exact ⟨[], ⟨[], by simp, rfl, rfl⟩, rfl, by simp, fun _ => rfl⟩
  · rintro t t' call ⟨left, ht⟩ hallowed hstep
    exact Option.some.inj hstep ▸ ht.available hallowed

end

end Entropy8To32

/-! ## A word to four bytes -/

structure Entropy32To8 where
  entropy : BitVec 32
  bytesConsumed : ℕ

namespace Entropy32To8

abbrev Traced := Trace Entropy32To8 (BitVec 32) Byte

def new : Entropy32To8 := ⟨0, 0⟩

def next (s : Entropy32To8) : Option Byte × Entropy32To8 :=
  if s.bytesConsumed < 4 then
    (some ((s.entropy &&& 0xff).setWidth 8), ⟨s.entropy >>> 8, s.bytesConsumed + 1⟩)
  else
    (none, s)

def entropyAvailable (s : Entropy32To8) (call : Call (BitVec 32)) : Continue × Traced :=
  match call.client, call.error, call.entropy with
  | none, _, _ => (.done, ⟨s, [], []⟩)
  | some client, .error _, _ =>
    let (bytes, s) := draw next client.takes s
    (client.answer, ⟨s, [], bytes⟩)
  | some _, .ok (), [] => (.more, ⟨s, [], []⟩)
  | some client, .ok (), val :: _ =>
    let (bytes, s) := draw next client.takes ⟨val, 0⟩
    (client.answer, ⟨s, [val], bytes⟩)

def machine := adapter new entropyAvailable

def bytesOf : ℕ → BitVec 32 → List Byte
  | 0, _ => []
  | n + 1, word => word.setWidth 8 :: bytesOf n (word >>> 8)

/-- The bytes that are still to be handed out. -/
def held (s : Entropy32To8) : List Byte :=
  bytesOf (4 - s.bytesConsumed) s.entropy

theorem draw_spec (n : ℕ) (s : Entropy32To8) :
    (draw next n s).1 ++ (draw next n s).2.held = s.held := by
  induction n generalizing s with
  | zero => rfl
  | succ n ih =>
    by_cases hmore : s.bytesConsumed < 4
    · have hheld : s.held = s.entropy.setWidth 8 ::
          held ⟨s.entropy >>> 8, s.bytesConsumed + 1⟩ := by
        rw [held, show 4 - s.bytesConsumed = 4 - (s.bytesConsumed + 1) + 1 by omega]
        rfl
      have hlow : (s.entropy &&& 0xff).setWidth 8 = s.entropy.setWidth 8 :=
        BitVec.setWidth_and.trans BitVec.and_allOnes
      rw [hheld, ← hlow]
      simp only [draw, next, hmore]
      exact congrArg (_ :: ·) (ih _)
    · simpa [draw, next, hmore] using ih s

/-- The bytes handed out are the first bytes of each word that was read. -/
def Splits (read : List (BitVec 32)) (handed : List Byte) : Prop :=
  ∃ parts : List (List Byte), List.Forall₂ (fun word part => part <+: bytesOf 4 word) read parts ∧
    handed = parts.flatten

/-- The last word read is in part handed out and in part held. -/
def Split (t : Traced) : Prop :=
  (t.read = [] ∧ t.handed = []) ∨ ∃ words word handed part, t.read = words ++ [word] ∧
    t.handed = handed ++ part ∧ Splits words handed ∧ part ++ t.state.held = bytesOf 4 word

section

variable {t : Traced} {call : Call (BitVec 32)}

theorem Split.splits (h : Split t) : Splits t.read t.handed := by
  obtain ⟨hread, hhanded⟩ | ⟨_, _, _, part, hread, hhanded, ⟨parts, hparts, rfl⟩, heq⟩ := h
  all_goals rw [hread, hhanded]
  · exact ⟨[], .nil, rfl⟩
  · exact ⟨parts ++ [part], rel_append hparts (.cons ⟨_, heq⟩ .nil), by simp⟩

/-- The client takes nothing from an error before the first word has arrived. -/
def Allowed (t : Traced) (call : Call (BitVec 32)) : Prop :=
  t.read = [] → call.error ≠ .ok () → call.TakesNothing

theorem Split.available (h : Split t) (hallowed : Allowed t call) :
    Split (t.append (entropyAvailable t.state call).2) := by
  have hsplits := h.splits
  obtain ⟨entropy, error, client⟩ := call
  match client, error, entropy with
  | none, _, _ => simpa [entropyAvailable, Trace.append] using h
  | some client, .ok (), [] => simpa [entropyAvailable, Trace.append] using h
  | some client, .ok (), val :: _ =>
    exact .inr ⟨t.read, val, t.handed, _, rfl, rfl, hsplits, draw_spec client.takes ⟨val, 0⟩⟩
  | some client, .error e, entropy =>
    obtain ⟨hread, hhanded⟩ | ⟨words, word, old, _, hread, hhanded, hwords, hword⟩ := h
    · simp only [entropyAvailable, hallowed hread nofun client rfl, draw, Trace.append, append_nil]
      exact .inl ⟨hread, hhanded⟩
    refine .inr ⟨words, word, old, _, by simpa [Trace.append, entropyAvailable] using hread,
      (congrArg (· ++ _) hhanded).trans (append_assoc ..), hwords, ?_⟩
    exact (append_assoc ..).trans (draw_spec client.takes t.state ▸ hword)

theorem Split.run (h : machine.Run Allowed t) : Split t := by
  refine h.invariant ?_ ?_
  · rintro t rfl
    exact .inl ⟨rfl, rfl⟩
  · intro t t' call ht hallowed hstep
    exact Option.some.inj hstep ▸ ht.available hallowed

end

end Entropy32To8

/-- What the adapters hand out in their runs is what they read, piece by piece. -/
theorem entropy_fresh {t : Entropy8To32.Traced} {u : Entropy32To8.Traced}
    (ht : Entropy8To32.machine.Run Entropy8To32.Allowed t)
    (hu : Entropy32To8.machine.Run Entropy32To8.Allowed u) :
    (∃ left, left.length = t.state.count ∧ Entropy8To32.Packs t.read left t.handed) ∧
      Entropy32To8.Splits u.read u.handed := by
  obtain ⟨left, hpacked⟩ := Entropy8To32.Packed.run ht
  exact ⟨⟨left, hpacked.count.symm, hpacked.packs⟩, (Entropy32To8.Split.run hu).splits⟩

def sampleCall {α : Type} (entropy : List α) (takes : ℕ) : Call α :=
  ⟨entropy, .ok (), some ⟨takes, .done⟩⟩

theorem entropy_fresh_sample : ∃ t u,
    Entropy8To32.machine.step ⟨.new, [], []⟩ (sampleCall [1, 2, 3, 4, 5] 1) = some t ∧
    Entropy32To8.machine.step ⟨.new, [], []⟩ (sampleCall [0x04030201] 2) = some u ∧
    t.handed = [0x04030201] ∧ u.handed = [1, 2] ∧
    (∃ left, left.length = t.state.count ∧ Entropy8To32.Packs t.read left t.handed) ∧
    Entropy32To8.Splits u.read u.handed :=
  ⟨_, _, rfl, rfl, by decide, by decide, entropy_fresh
    (.step (.start rfl) (fun h => absurd h (by decide)) rfl)
    (.step (.start rfl) (fun _ h => absurd rfl h) rfl)⟩

/-- A client that leaves a word gets a word of zeroes in its place, and one that
asks for a byte when there is an error before the first word gets a zero. -/
theorem entropy_not_fresh : (∃ t, Entropy8To32.machine.steps
      [sampleCall [1, 2, 3, 4] 0, sampleCall [] 1] ⟨.new, [], []⟩ = some t ∧
    t.read = [1, 2, 3, 4] ∧ t.handed = [0] ∧
    ∀ left, ¬ Entropy8To32.Packs t.read left t.handed) ∧ ∃ u, Entropy32To8.machine.steps
      [⟨[], .error .fail, some ⟨1, .done⟩⟩] ⟨.new, [], []⟩ = some u ∧
    u.read = [] ∧ u.handed = [0] ∧ ¬ Entropy32To8.Splits u.read u.handed := by
  refine ⟨⟨_, rfl, rfl, rfl, ?_⟩, _, rfl, rfl, by decide, ?_⟩
  · rintro left ⟨_, hfour, hhanded, hread⟩
    obtain ⟨piece, rfl, hword⟩ := map_eq_singleton_iff.mp hhanded.symm
    have hpiece := congrArg (take 4) hread
    rw [flatten_singleton, take_left' (hfour piece (by simp))] at hpiece
    exact absurd (hpiece ▸ hword) (by decide)
  · rintro ⟨_, hparts, hhanded⟩
    cases hparts
    cases hhanded

end TockKernel.Entropy

import TockKernel.Bytes

/-!
# Encoding and decoding of byte streams

The functions and macros of `capsules/core/src/stream.rs` (of which
`capsules/extra/src/net/stream.rs` is a copy). A decoder says how many bytes of
the rest of a buffer it has used, an encoder returns the bytes that it writes
into the room that is left. Slicing a buffer beyond its end is a panic.
-/

namespace TockKernel.Net

open BitVec

inductive SResult (α : Type*) where
  | done (off : ℕ) (out : α)
  | needed (bytes : ℕ)
  | error
  | panicked
  deriving DecidableEq, Repr

variable {α β : Type*}

/-- `dec_try!(buf, off; decoder)`, and what follows it. -/
def decTry (buf : List Byte) (off : ℕ) (decoder : List Byte → SResult α)
    (next : ℕ → α → SResult β) : SResult β :=
  if off ≤ buf.length then
    match decoder (buf.drop off) with
    | .done n out => next (off + n) out
    | .needed n => .needed (off + n)
    | .error => .error
    | .panicked => .panicked
  else
    .panicked

/-- An encoder that is given the room in the buffer. -/
abbrev Encoder (α : Type*) := ℕ → SResult (List Byte × α)

/-- `enc_try!(buf, off; encoder)`, and what follows it. -/
def encTry (room off : ℕ) (encoder : Encoder α)
    (next : ℕ → List Byte → α → SResult β) : SResult β :=
  if off ≤ room then
    match encoder (room - off) with
    | .done n (bytes, out) => next (off + n) bytes out
    | .needed n => .needed (off + n)
    | .error => .error
    | .panicked => .panicked
  else
    .panicked

/-! ## Encoders and decoders -/

def encodeBytes (bs : List Byte) : Encoder Unit := fun room =>
  if room < bs.length then .needed bs.length else .done bs.length (bs, ())

def encodeU8 (b : Byte) : Encoder Unit := encodeBytes [b]

def encodeU16 (b : BitVec 16) : Encoder Unit :=
  encodeBytes [b.extractLsb' 8 8, b.extractLsb' 0 8]

def encodeU32 (b : BitVec 32) : Encoder Unit :=
  encodeBytes [b.extractLsb' 24 8, b.extractLsb' 16 8, b.extractLsb' 8 8, b.extractLsb' 0 8]

def encodeBytesBe {n : ℕ} (bs : Vector Byte n) : Encoder Unit :=
  encodeBytes bs.toList.reverse

def decodeU8 : List Byte → SResult Byte
  | b :: _ => .done 1 b
  | [] => .needed 1

def decodeU16 : List Byte → SResult (BitVec 16)
  | b0 :: b1 :: _ => .done 2 (b0 ++ b1)
  | _ => .needed 2

def decodeU32 : List Byte → SResult (BitVec 32)
  | b0 :: b1 :: b2 :: b3 :: _ => .done 4 (b0 ++ b1 ++ b2 ++ b3)
  | _ => .needed 4

def decodeBytesBe (n : ℕ) (buf : List Byte) : SResult (Vector Byte n) :=
  if h : n ≤ buf.length then
    .done n ⟨(buf.take n).reverse.toArray, by simp [h]⟩
  else
    .needed n

/-- `u16::to_be` and `u16::from_be` on a little-endian machine. -/
def be16 (b : BitVec 16) : BitVec 16 :=
  b.extractLsb' 0 8 ++ b.extractLsb' 8 8

/-- `u32::to_be` and `u32::from_be`. -/
def be32 (b : BitVec 32) : BitVec 32 :=
  b.extractLsb' 0 8 ++ b.extractLsb' 8 8 ++ b.extractLsb' 16 8 ++ b.extractLsb' 24 8

/-! ## Chains -/

structure Remaining (buf : List Byte) (off : ℕ) (rest : List Byte) : Prop where
  le : off ≤ buf.length
  drop : buf.drop off = rest

theorem Remaining.start (buf : List Byte) : Remaining buf 0 buf := ⟨Nat.zero_le _, rfl⟩

variable {bytes buf : List Byte} {off : ℕ} {decoder : List Byte → SResult α}
  {n : ℕ}

theorem Remaining.advance {rest : List Byte} (h : Remaining buf off (bytes ++ rest)) :
    Remaining buf (off + bytes.length) rest := by
  have hlen := congrArg List.length h.drop
  rw [List.length_drop, List.length_append] at hlen
  have hle := h.le
  refine ⟨by omega, ?_⟩
  rw [← List.drop_drop, h.drop, List.drop_left]

def Decodes (decoder : List Byte → SResult α) (bytes : List Byte) (out : α) : Prop :=
  ∀ rest, decoder (bytes ++ rest) = .done bytes.length out

theorem Remaining.decTry {rest : List Byte} {out : α} (h : Remaining buf off (bytes ++ rest))
    (hdecodes : Decodes decoder bytes out) (next : ℕ → α → SResult β) :
    decTry buf off decoder next = next (off + bytes.length) out := by
  rw [Net.decTry, if_pos h.le, h.drop, hdecodes rest]

theorem Decodes.decTry {out : α} (hdecodes : Decodes decoder bytes out)
    (rest : List Byte) (next : ℕ → α → SResult β) :
    decTry (bytes ++ rest) 0 decoder next = next bytes.length out := by
  rw [(Remaining.start _).decTry hdecodes next, Nat.zero_add]

theorem decTry_eq_done {next : ℕ → α → SResult β} {out : β}
    (h : decTry buf off decoder next = .done n out) : ∃ m a, decoder (buf.drop off) = .done m a ∧
      next (off + m) a = .done n out := by
  unfold decTry at h
  split at h
  swap
  · cases h
  split at h
  next m a hdecoder => exact ⟨m, a, hdecoder, h⟩
  all_goals cases h

theorem encTry_eq_done {room : ℕ} {encoder : Encoder α} {next : ℕ → List Byte → α → SResult β}
    {out : β} (h : encTry room off encoder next = .done n out) :
    ∃ m bytes a, encoder (room - off) = .done m (bytes, a) ∧
      next (off + m) bytes a = .done n out := by
  unfold encTry at h
  split at h
  swap
  · cases h
  split at h
  next m bytes a hencoder => exact ⟨m, bytes, a, hencoder, h⟩
  all_goals cases h

theorem encodeBytes_eq_done {bs : List Byte} {room : ℕ} {out : Unit}
    (h : encodeBytes bs room = .done n (bytes, out)) : n = bs.length ∧ bytes = bs := by
  unfold encodeBytes at h
  split at h
  · cases h
  · cases h
    exact ⟨rfl, rfl⟩

/-! ## Round trips -/

theorem be16_be16 (b : BitVec 16) : be16 (be16 b) = b := by
  unfold be16
  grind

theorem be32_be32 (b : BitVec 32) : be32 (be32 b) = b := by
  unfold be32
  ext i hi
  simp only [getElem_append, getElem_extractLsb', getLsbD_append, getLsbD_extractLsb']
  grind

theorem decodes_u16 (b : BitVec 16) :
    Decodes decodeU16 [b.extractLsb' 8 8, b.extractLsb' 0 8] b := by
  intro rest
  exact congrArg (SResult.done 2) (le16_append b)

theorem decodes_u32 (b : BitVec 32) : Decodes decodeU32 [b.extractLsb' 24 8, b.extractLsb' 16 8,
      b.extractLsb' 8 8, b.extractLsb' 0 8] b := by
  intro rest
  exact congrArg (SResult.done 4) (le32_append b)

theorem decodes_u8 (b : Byte) : Decodes decodeU8 [b] b := fun _ => rfl

theorem decodes_bytesBe (bs : Vector Byte n) : Decodes (decodeBytesBe n) bs.toList.reverse bs := by
  intro rest
  have hlen : bs.toList.reverse.length = n := by simp
  have hle : n ≤ (bs.toList.reverse ++ rest).length := by
    rw [List.length_append]
    omega
  rw [decodeBytesBe, dif_pos hle]
  congr 1
  · exact hlen.symm
  · apply Vector.toList_inj.mp
    simp

end TockKernel.Net

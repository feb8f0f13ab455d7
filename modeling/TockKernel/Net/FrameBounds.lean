import TockKernel.Net.FramerRuns

/-!
# The bounds of received frames

`Header::decode` never reads beyond the buffer that it is given. The framer gives
it the whole buffer of the radio, not the frame that was received: the header that
is found may end behind the frame, and the length of the payload then underflows.
-/

namespace TockKernel.Net

open Reception
open Option (bind_eq_some_iff bind_some isSome_iff_exists)
open Arithmetic

/-! ## Decoders -/

variable {α β : Type*} {buf : List Byte} {off : ℕ}

/-- What is used of a buffer is in it, and nothing is read beyond its end. -/
def SResult.InBounds (length : ℕ) : SResult α → Prop
  | .done off _ => off ≤ length
  | .needed _ | .error => True
  | .panicked => False

def InBounds (decoder : List Byte → SResult α) : Prop :=
  ∀ buf, (decoder buf).InBounds buf.length

theorem decTry_inBounds {decoder : List Byte → SResult α}
    {next : ℕ → α → SResult β} (hdecoder : InBounds decoder) (hoff : off ≤ buf.length)
    (hnext : ∀ off ≤ buf.length, ∀ a, (next off a).InBounds buf.length) :
    (decTry buf off decoder next).InBounds buf.length := by
  have hrest := hdecoder (buf.drop off)
  rw [List.length_drop] at hrest
  rw [decTry, if_pos hoff]
  cases hdone : decoder (buf.drop off) with
  | done n out =>
    rw [hdone] at hrest
    have hn : n ≤ buf.length - off := hrest
    exact hnext _ (by omega) out
  | needed n => trivial
  | error => trivial
  | panicked =>
    rw [hdone] at hrest
    exact hrest

theorem InBounds.map {decoder : List Byte → SResult α} (h : InBounds decoder) (f : α → β) :
    InBounds fun buf => decTry buf 0 decoder fun off a => .done off (f a) :=
  fun _ => decTry_inBounds h (Nat.zero_le _) fun _ hoff _ => hoff

theorem inBounds_done (out : α) : InBounds fun _ => .done 0 out := fun _ => Nat.zero_le _

theorem decodeU8_inBounds : InBounds decodeU8 := by
  rintro (_ | ⟨-, -⟩)
  · trivial
  · exact Nat.le_add_left _ _

theorem decodeU16_inBounds : InBounds decodeU16 := by
  rintro (_ | ⟨-, _ | ⟨-, -⟩⟩)
  · trivial
  · trivial
  · exact Nat.le_add_left 2 _

theorem decodeU32_inBounds : InBounds decodeU32 := by
  rintro (_ | ⟨-, _ | ⟨-, _ | ⟨-, _ | ⟨-, -⟩⟩⟩⟩)
  iterate 4 trivial
  exact Nat.le_add_left 4 _

theorem decodeBytesBe_inBounds (n : ℕ) : InBounds (decodeBytesBe n) := by
  intro buf
  unfold decodeBytesBe
  split
  · assumption
  · trivial

theorem MacAddress.decode_inBounds (mode : AddressMode) : InBounds (decode mode) := by
  cases mode with
  | notPresent => exact inBounds_done none
  | short => exact decodeU16_inBounds.map _
  | long => exact (decodeBytesBe_inBounds 8).map _

theorem decodePan_inBounds (present : Bool) : InBounds (decodePan present) := by
  cases present
  · exact inBounds_done none
  · exact decodeU16_inBounds.map _

theorem decodeAddressing_inBounds (version : FrameVersion)
    (dstMode srcMode : AddressMode) (panIdCompression : Bool) :
    InBounds (decodeAddressing version dstMode srcMode panIdCompression) := by
  intro buf
  unfold decodeAddressing
  generalize pansPresent version dstMode srcMode panIdCompression = present
  refine decTry_inBounds (decodePan_inBounds _) (Nat.zero_le _) fun off hoff _ => ?_
  refine decTry_inBounds (MacAddress.decode_inBounds _) hoff fun off hoff _ => ?_
  refine decTry_inBounds (decodePan_inBounds _) hoff fun off hoff _ => ?_
  split
  · trivial
  · exact decTry_inBounds (MacAddress.decode_inBounds _) hoff fun _ hoff _ => hoff

theorem KeyId.decode_inBounds (mode : KeyIdMode) : InBounds (decode mode) := by
  have hsource (n : ℕ) (make : Vector Byte n → Byte → KeyId) :
      InBounds (decodeSource n make) := fun buf =>
    decTry_inBounds (decodeBytesBe_inBounds n) (Nat.zero_le _) fun _ hoff _ =>
      decTry_inBounds decodeU8_inBounds hoff fun _ hoff _ => hoff
  cases mode with
  | implicit => exact inBounds_done _
  | index => exact decodeU8_inBounds.map _
  | source4Index => exact hsource 4 _
  | source8Index => exact hsource 8 _

theorem Security.decode_inBounds : InBounds decode := by
  have hcounter (present : Bool) : InBounds (decodeCounter present) := by
    cases present
    · exact inBounds_done none
    · exact decodeU32_inBounds.map _
  intro buf
  refine decTry_inBounds decodeU8_inBounds (Nat.zero_le _) fun off hoff scf => ?_
  split
  · trivial
  · refine decTry_inBounds (hcounter _) hoff fun off hoff _ => ?_
    exact decTry_inBounds (KeyId.decode_inBounds _) hoff fun _ hoff _ => hoff

theorem HeaderIE.decode_inBounds : InBounds decode := by
  intro buf
  refine decTry_inBounds decodeU16_inBounds (Nat.zero_le _) fun off _ ieCtlBe => ?_
  dsimp only
  split
  swap
  · trivial
  split
  · trivial
  next hroom => exact Nat.le_of_not_lt hroom

theorem PayloadIE.decode_inBounds : InBounds decode := by
  intro buf
  refine decTry_inBounds decodeU16_inBounds (Nat.zero_le _) fun off _ ieCtlBe => ?_
  dsimp only
  split
  swap
  · trivial
  split
  · trivial
  next hroom => exact Nat.le_of_not_lt hroom

/-! ## Headers

The loops over the elements end before their fuel is used up. -/

section

variable {fuel len : ℕ} (hoff : off ≤ buf.length)
include hoff

theorem decodeHeaderIes_inBounds {ies : Vector HeaderIE maxHeaderIes}
    (hlen : len < maxHeaderIes) (hfuel : maxHeaderIes ≤ len + fuel) :
    (decodeHeaderIes buf fuel off ies len).InBounds buf.length := by
  induction fuel generalizing off ies len with
  | zero => omega
  | succ fuel ih =>
    refine decTry_inBounds HeaderIE.decode_inBounds hoff fun off hoff ie => ?_
    split
    · exact hoff
    · exact hoff
    split
    next hmore => exact ih hoff hmore (by omega)
    · trivial

theorem decodePayloadIes_inBounds {ies : Vector PayloadIE maxPayloadIes}
    (hlen : len < maxPayloadIes) (hfuel : maxPayloadIes ≤ len + fuel) :
    (decodePayloadIes buf fuel off ies len).InBounds buf.length := by
  induction fuel generalizing off ies len with
  | zero => omega
  | succ fuel ih =>
    refine decTry_inBounds PayloadIE.decode_inBounds hoff fun off hoff ie => ?_
    split
    · exact hoff
    split
    next hmore => exact ih hoff hmore (by omega)
    · trivial

theorem Header.decodeElements_inBounds (iePresent unencrypted : Bool) (h : Header) :
    (decodeElements buf off iePresent unencrypted h).InBounds buf.length := by
  have hheader : (decodeHeaderPart buf off iePresent).InBounds buf.length := by
    unfold decodeHeaderPart
    split
    · exact decodeHeaderIes_inBounds hoff (by decide) le_rfl
    · exact hoff
  have hpayload (off : ℕ) (hoff : off ≤ buf.length) (parsed : Bool) :
      (decodePayloadPart buf off parsed).InBounds buf.length := by
    unfold decodePayloadPart
    split
    · exact decodePayloadIes_inBounds hoff (by decide) le_rfl
    · exact hoff
  unfold decodeElements
  split
  next hdone =>
    rw [hdone] at hheader
    have hpart := hpayload _ hheader
    split
    next hdone =>
      have := hdone ▸ hpart _
      exact this
    · trivial
    · trivial
    next hpanicked =>
    have := hpanicked ▸ hpart _
    exact this
  · trivial
  · trivial
  next hpanicked =>
    rw [hpanicked] at hheader
    exact hheader

end

theorem Header.decode_inBounds (unsecured : Bool) : InBounds fun buf => decode buf unsecured := by
  have hseq (suppressed : Bool) : InBounds (decodeSeq suppressed) := by
    cases suppressed
    · exact decodeU8_inBounds.map _
    · exact inBounds_done none
  have hsecurity (enabled : Bool) : InBounds (decodeSecurity enabled) := by
    cases enabled
    · exact inBounds_done none
    · exact Security.decode_inBounds.map _
  intro buf
  refine decTry_inBounds decodeU16_inBounds (Nat.zero_le _) fun off hoff fcfBe => ?_
  dsimp only
  split
  swap
  · trivial
  refine decTry_inBounds (hseq _) hoff fun off hoff _ => ?_
  refine decTry_inBounds (decodeAddressing_inBounds _ _ _ _) hoff fun off hoff _ => ?_
  refine decTry_inBounds (hsecurity _) hoff fun off hoff _ => ?_
  exact decodeElements_inBounds hoff _ _ _

/-! ## Receptions -/

namespace Reception

/-- The frame has room for its header and its code. -/
def Holds (r : Reception) : Prop :=
  ∀ decoded ∈ r.header, decoded.1 + micLenOf decoded.2.1 ≤ r.frameLen

variable {r : Reception} {keys : KeyProcedure} {info : FrameInfo}

theorem Holds.frameInfo (h : r.Holds) (hinfo : r.frameInfo keys = some info) :
    info.dataOffset + info.micLen ≤ r.frameLen := by
  obtain ⟨decoded, hheader, hinfo⟩ := bind_eq_some_iff.mp hinfo
  obtain ⟨_, hsecurity, hinfo⟩ := bind_eq_some_iff.mp hinfo
  obtain ⟨-, -, rfl⟩ := incomingFrameInfo_eq_some hinfo
  have hroom := h decoded hheader
  rw [micLenOf, hsecurity] at hroom
  exact hroom

end Reception

namespace Framer

variable {profile : Profile} {keys : KeyProcedure} {s : Framer} {r : Reception}

section

variable (hbuf : psduOffset + lqiSize ≤ r.buf.length)
include hbuf

end

section

variable (hrx : s.rxState = .idle) (hcrc : r.crcValid = true)
include hrx hcrc

end

end Framer

end TockKernel.Net

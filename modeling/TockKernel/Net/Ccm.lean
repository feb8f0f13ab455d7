import Mathlib.Tactic

/-!
# CCM*

The authenticated encryption of IEEE 802.15.4, over an arbitrary block cipher:
chained blocks for the authentication tag, a key stream from a counter for the
message and for the tag. Blocks are words whose most significant byte comes
first.
-/

namespace Ccm

abbrev Byte := BitVec 8

abbrev Block := BitVec 128

/-- A block cipher takes a key and a block. -/
abbrev Cipher := Block → Block → Block

def blockOfBytes (bytes : List Byte) : Block :=
  bytes.foldl (fun block b => block <<< 8 ||| b.setWidth 128) 0

def bytesOfBlock (block : Block) : List Byte :=
  (List.range 16).map fun i => block.extractLsb' (120 - 8 * i) 8

theorem length_bytesOfBlock (block : Block) : (bytesOfBlock block).length = 16 := by
  simp [bytesOfBlock]

section Modes

variable (cipher : Cipher) (key : Block)

/-- The first `n` blocks, each chained to the one before. -/
def cbc : ℕ → Block → List Byte → List Byte
  | 0, _, _ => []
  | n + 1, iv, bytes =>
    let block := cipher key (iv ^^^ blockOfBytes (bytes.take 16))
    bytesOfBlock block ++ cbc n block (bytes.drop 16)

def cbcMac : ℕ → Block → List Byte → Block
  | 0, iv, _ => iv
  | n + 1, iv, bytes =>
    cbcMac n (cipher key (iv ^^^ blockOfBytes (bytes.take 16))) (bytes.drop 16)

/-- The first `n` blocks, combined with the key stream. -/
def ctr : ℕ → Block → List Byte → List Byte
  | 0, _, _ => []
  | n + 1, counter, bytes =>
    bytesOfBlock (blockOfBytes (bytes.take 16) ^^^ cipher key counter) ++
      ctr n (counter + 1) (bytes.drop 16)

theorem length_cbc (n : ℕ) (iv : Block) (bytes : List Byte) :
    (cbc cipher key n iv bytes).length = 16 * n := by
  induction n generalizing iv bytes with
  | zero => rfl
  | succ n ih =>
    rw [cbc, List.length_append, length_bytesOfBlock, ih]
    omega

theorem length_ctr (n : ℕ) (counter : Block) (bytes : List Byte) :
    (ctr cipher key n counter bytes).length = 16 * n := by
  induction n generalizing counter bytes with
  | zero => rfl
  | succ n ih =>
    rw [ctr, List.length_append, length_bytesOfBlock, ih]
    omega

theorem ctr_append {block bytes : List Byte} (hblock : block.length = 16)
    (n : ℕ) (counter : Block) : (ctr cipher key (n + 1) counter (block ++ bytes)).drop 16 =
      ctr cipher key n (counter + 1) bytes := by
  rw [ctr, List.drop_left' (length_bytesOfBlock _), List.drop_left' hblock]

end Modes

/-! ## Messages -/

def blocks (n : ℕ) : ℕ := (n + 15) / 16

theorem le_blocks (n : ℕ) : n ≤ 16 * blocks n := by
  unfold blocks
  omega

def pad (bytes : List Byte) : List Byte :=
  bytes ++ List.replicate (16 * blocks bytes.length - bytes.length) 0

def u16Bytes (n : ℕ) : List Byte :=
  [(BitVec.ofNat 16 n).extractLsb' 8 8, (BitVec.ofNat 16 n).extractLsb' 0 8]

/-- Whether there is authenticated data, the length of the tag, and a length
field of two bytes. -/
def flags (micLen : ℕ) (aData : List Byte) : Byte :=
  (if aData.length ≠ 0 then 0x40 else 0) |||
    (if micLen ≠ 0 then BitVec.ofNat 8 ((micLen - 2) / 2) <<< 3 else 0) ||| 1

def header (nonce : List Byte) (micLen : ℕ) (aData mData : List Byte) : List Byte :=
  flags micLen aData :: (nonce ++ u16Bytes mData.length ++
    (if aData.length = 0 then [] else u16Bytes aData.length) ++ aData)

def authenticated (nonce : List Byte) (micLen : ℕ) (aData mData : List Byte) : List Byte :=
  pad (header nonce micLen aData mData) ++ pad mData

def counter (nonce : List Byte) : Block :=
  blockOfBytes (1 :: (nonce ++ [0, 0]))

section Messages

variable (cipher : Cipher) (key : Block) (nonce : List Byte)

def mic (micLen : ℕ) (aData mData : List Byte) : List Byte :=
  let bytes := authenticated nonce micLen aData mData
  (bytesOfBlock (cbcMac cipher key (bytes.length / 16) 0 bytes ^^^
    cipher key (counter nonce))).take micLen

def crypt (mData : List Byte) : List Byte :=
  (ctr cipher key (blocks mData.length) (counter nonce + 1) (pad mData)).take mData.length

theorem length_crypt (mData : List Byte) :
    (crypt cipher key nonce mData).length = mData.length := by
  have := le_blocks mData.length
  rw [crypt, List.length_take, length_ctr]
  omega

end Messages

end Ccm

import SeamlessStack.Lib.Crc

/-! `crc_pcl`, the checksum of extents: the crc32 instruction over three thirds of a block, put
together with carry-less products, and over what is left. Addresses and lengths are numbers, as
nothing wraps below 2^64; reading beside the buffer gives `none`. -/
namespace SeamlessStack.Checksum

open Lib.Crc

def castagnoli : BitVec 32 := 0x82f63b78#32

def crc32 (size : ℕ) (dest src : BitVec 64) : BitVec 64 :=
  (feed castagnoli (dest.setWidth 32) ((bits src).take (8 * size))).setWidth 64

def pclmulqdq (a b : BitVec 64) : BitVec 128 := clmul 128 a b

def shl (len k : ℕ) : ℕ × Bool := (len * 2 ^ k % 2 ^ 32, len.testBit (32 - k))

/-- A buffer in memory. -/
structure Buffer where
  address : ℕ
  bytes : List (BitVec 8)
  fits : address + bytes.length < 2 ^ 64

def quadword : List (BitVec 8) → BitVec 64
  | [] => 0#64
  | b :: l => quadword l <<< 8 ||| b.setWidth 64

namespace Buffer

def load (b : Buffer) (size address : ℕ) : Option (BitVec 64) :=
  if b.address ≤ address ∧ address + size ≤ b.address + b.bytes.length then
    some (quadword ((b.bytes.drop (address - b.address)).take size))
  else none

end Buffer

section Small

variable (b : Buffer)

def crcWords : ℕ → BitVec 64 → ℕ → Option (BitVec 64)
  | 0, crc, _ => some crc
  | k + 1, crc, address =>
    (b.load 8 address).bind fun word => crcWords k (crc32 8 crc word) (address + 8)

def crcTake (n : ℕ) (crc : BitVec 64) (address : ℕ) : Option (BitVec 64) :=
  if n < 8 then (b.load n address).map (crc32 n crc) else crcWords b (n / 8) crc address

/-- A `less_than_` label behind its shift: with the carry flag set `n` bytes are taken. -/
def postShl (n : ℕ) (next : BitVec 64 → ℕ → ℕ → Option (BitVec 64)) (crc : BitVec 64)
    (bufptmp len : ℕ) (carry : Bool) : Option (BitVec 64) :=
  if carry then
    (crcTake b n crc bufptmp).bind fun crc =>
      -- jz do_return
      if len = 0 then some crc else next crc (bufptmp + n) len
  else next crc bufptmp len

def lessThan : ℕ → BitVec 64 → ℕ → ℕ → Option (BitVec 64)
  | 0, crc, _, _ => some crc
  | e + 1, crc, bufptmp, len =>
    postShl b (2 ^ e) (lessThan e) crc bufptmp (shl len 1).1 (shl len 1).2

def lessThan256 := lessThan b 8

def lessThan16 := lessThan b 4

def lessThan8PostShl1 := postShl b 4 (lessThan b 2)

def small (crc : BitVec 64) (bufptmp len : ℕ) : Option (BitVec 64) :=
  lessThan256 b crc bufptmp (shl len 24).1

def lessThan24 (crc : BitVec 64) (bufptmp len : ℕ) : Option (BitVec 64) :=
  let (len, carry) := shl len 28
  if carry then
    (crcWords b 2 crc bufptmp).bind fun crc =>
      if len = 0 then some crc
      else lessThan8PostShl1 b crc (bufptmp + 16) (shl len 2).1 (shl len 2).2
  else lessThan16 b crc bufptmp len

end Small

/-- The three remainders of a block. -/
structure Crcs where
  crcInit : BitVec 64
  crc1 : BitVec 64
  crc2 : BitVec 64

def kTable : List (BitVec 64 × BitVec 64) :=
  [
    (0x14cd00bd6#64, 0x105ec76f0#64), (0x0ba4fc28e#64, 0x14cd00bd6#64), (0x1d82c63da#64, 0x0f20c0dfe#64),
    (0x09e4addf8#64, 0x0ba4fc28e#64), (0x039d3b296#64, 0x1384aa63a#64), (0x102f9b8a2#64, 0x1d82c63da#64),
    (0x14237f5e6#64, 0x01c291d04#64), (0x00d3b6092#64, 0x09e4addf8#64), (0x0c96cfdc0#64, 0x0740eef02#64),
    (0x18266e456#64, 0x039d3b296#64), (0x0daece73e#64, 0x0083a6eec#64), (0x0ab7aff2a#64, 0x102f9b8a2#64),
    (0x1248ea574#64, 0x1c1733996#64), (0x083348832#64, 0x14237f5e6#64), (0x12c743124#64, 0x02ad91c30#64),
    (0x0b9e02b86#64, 0x00d3b6092#64), (0x018b33a4e#64, 0x06992cea2#64), (0x1b331e26a#64, 0x0c96cfdc0#64),
    (0x17d35ba46#64, 0x07e908048#64), (0x1bf2e8b8a#64, 0x18266e456#64), (0x1a3e0968a#64, 0x11ed1f9d8#64),
    (0x0ce7f39f4#64, 0x0daece73e#64), (0x061d82e56#64, 0x0f1d0f55e#64), (0x0d270f1a2#64, 0x0ab7aff2a#64),
    (0x1c3f5f66c#64, 0x0a87ab8a8#64), (0x12ed0daac#64, 0x1248ea574#64), (0x065863b64#64, 0x08462d800#64),
    (0x11eef4f8e#64, 0x083348832#64), (0x1ee54f54c#64, 0x071d111a8#64), (0x0b3e32c28#64, 0x12c743124#64),
    (0x0064f7f26#64, 0x0ffd852c6#64), (0x0dd7e3b0c#64, 0x0b9e02b86#64), (0x0f285651c#64, 0x0dcb17aa4#64),
    (0x010746f3c#64, 0x018b33a4e#64), (0x1c24afea4#64, 0x0f37c5aee#64), (0x0271d9844#64, 0x1b331e26a#64),
    (0x08e766a0c#64, 0x06051d5a2#64), (0x093a5f730#64, 0x17d35ba46#64), (0x06cb08e5c#64, 0x11d5ca20e#64),
    (0x06b749fb2#64, 0x1bf2e8b8a#64), (0x1167f94f2#64, 0x021f3d99c#64), (0x0cec3662e#64, 0x1a3e0968a#64),
    (0x19329634a#64, 0x08f158014#64), (0x0e6fc4e6a#64, 0x0ce7f39f4#64), (0x08227bb8a#64, 0x1a5e82106#64),
    (0x0b0cd4768#64, 0x061d82e56#64), (0x13c2b89c4#64, 0x188815ab2#64), (0x0d7a4825c#64, 0x0d270f1a2#64),
    (0x10f5ff2ba#64, 0x105405f3e#64), (0x00167d312#64, 0x1c3f5f66c#64), (0x0f6076544#64, 0x0e9adf796#64),
    (0x026f6a60a#64, 0x12ed0daac#64), (0x1a2adb74e#64, 0x096638b34#64), (0x19d34af3a#64, 0x065863b64#64),
    (0x049c3cc9c#64, 0x1e50585a0#64), (0x068bce87a#64, 0x11eef4f8e#64), (0x1524fa6c6#64, 0x19f1c69dc#64),
    (0x16cba8aca#64, 0x1ee54f54c#64), (0x042d98888#64, 0x12913343e#64), (0x1329d9f7e#64, 0x0b3e32c28#64),
    (0x1b1c69528#64, 0x088f25a3a#64), (0x02178513a#64, 0x0064f7f26#64), (0x0e0ac139e#64, 0x04e36f0b0#64),
    (0x0170076fa#64, 0x0dd7e3b0c#64), (0x141a1a2e2#64, 0x0bd6f81f8#64), (0x16ad828b4#64, 0x0f285651c#64),
    (0x041d17b64#64, 0x19425cbba#64), (0x1fae1cc66#64, 0x010746f3c#64), (0x1a75b4b00#64, 0x18db37e8a#64),
    (0x0f872e54c#64, 0x1c24afea4#64), (0x01e41e9fc#64, 0x04c144932#64), (0x086d8e4d2#64, 0x0271d9844#64),
    (0x160f7af7a#64, 0x052148f02#64), (0x05bb8f1bc#64, 0x08e766a0c#64), (0x0a90fd27a#64, 0x0a3c6f37a#64),
    (0x0b3af077a#64, 0x093a5f730#64), (0x04984d782#64, 0x1d22c238e#64), (0x0ca6ef3ac#64, 0x06cb08e5c#64),
    (0x0234e0b26#64, 0x063ded06a#64), (0x1d88abd4a#64, 0x06b749fb2#64), (0x04597456a#64, 0x04d56973c#64),
    (0x0e9e28eb4#64, 0x1167f94f2#64), (0x07b3ff57a#64, 0x19385bf2e#64), (0x0c9c8b782#64, 0x0cec3662e#64),
    (0x13a9cba9e#64, 0x0e417f38a#64), (0x093e106a4#64, 0x19329634a#64), (0x167001a9c#64, 0x14e727980#64),
    (0x1ddffc5d4#64, 0x0e6fc4e6a#64), (0x00df04680#64, 0x0d104b8fc#64), (0x02342001e#64, 0x08227bb8a#64),
    (0x00a2a8d7e#64, 0x05b397730#64), (0x168763fa6#64, 0x0b0cd4768#64), (0x1ed5a407a#64, 0x0e78eb416#64),
    (0x0d2c3ed1a#64, 0x13c2b89c4#64), (0x0995a5724#64, 0x1641378f0#64), (0x19b1afbc4#64, 0x0d7a4825c#64),
    (0x109ffedc0#64, 0x08d96551c#64), (0x0f2271e60#64, 0x10f5ff2ba#64), (0x00b0bf8ca#64, 0x00bf80dd2#64),
    (0x123888b7a#64, 0x00167d312#64), (0x1e888f7dc#64, 0x18dcddd1c#64), (0x002ee03b2#64, 0x0f6076544#64),
    (0x183e8d8fe#64, 0x06a45d2b2#64), (0x133d7a042#64, 0x026f6a60a#64), (0x116b0f50c#64, 0x1dd3e10e8#64),
    (0x05fabe670#64, 0x1a2adb74e#64), (0x130004488#64, 0x0de87806c#64), (0x000bcf5f6#64, 0x19d34af3a#64),
    (0x18f0c7078#64, 0x014338754#64), (0x017f27698#64, 0x049c3cc9c#64), (0x058ca5f00#64, 0x15e3e77ee#64),
    (0x1af900c24#64, 0x068bce87a#64), (0x0b5cfca28#64, 0x0dd07448e#64), (0x0ded288f8#64, 0x1524fa6c6#64),
    (0x059f229bc#64, 0x1d8048348#64), (0x06d390dec#64, 0x16cba8aca#64), (0x037170390#64, 0x0a3e3e02c#64),
    (0x06353c1cc#64, 0x042d98888#64), (0x0c4584f5c#64, 0x0d73c7bea#64), (0x1f16a3418#64, 0x1329d9f7e#64),
    (0x0531377e2#64, 0x185137662#64), (0x1d8d9ca7c#64, 0x1b1c69528#64), (0x0b25b29f2#64, 0x18a08b5bc#64),
    (0x19fb2a8b0#64, 0x02178513a#64), (0x1a08fe6ac#64, 0x1da758ae0#64), (0x045cddf4e#64, 0x0e0ac139e#64),
    (0x1a91647f2#64, 0x169cf9eb0#64), (0x1a0f717c4#64, 0x0170076fa#64)]

section Blocks

variable (b : Buffer)

/-- The array from the label `crc_` i on; the last word of the third piece is left out. -/
def crcArray (block0 block1 block2 : ℕ) : ℕ → Crcs → Option Crcs
  | 0, s => some s
  | i + 1, s =>
    (b.load 8 (block0 - (i + 1) * 8)).bind fun word0 =>
    (b.load 8 (block1 - (i + 1) * 8)).bind fun word1 =>
    if i = 0 then some { s with crcInit := crc32 8 s.crcInit word0, crc1 := crc32 8 s.crc1 word1 }
    else
      (b.load 8 (block2 - (i + 1) * 8)).bind fun word2 =>
      crcArray block0 block1 block2 i
        ⟨crc32 8 s.crcInit word0, crc32 8 s.crc1 word1, crc32 8 s.crc2 word2⟩

def combineResults (rax block2 : ℕ) (s : Crcs) : Option (BitVec 64) :=
  kTable[rax - 1]?.bind fun (k1, k2) =>
  (b.load 8 (block2 - 8)).map fun word =>
    crc32 8 s.crc2 ((pclmulqdq s.crcInit k1 ^^^ pclmulqdq s.crc1 k2).setWidth 64 ^^^ word)

def threePieces (rax : ℕ) (crc : BitVec 64) (bufptmp : ℕ) : Option (BitVec 64) :=
  let block0 := bufptmp + rax * 8
  let block1 := block0 + rax * 8
  let block2 := block1 + rax * 8
  (crcArray b block0 block1 block2 rax ⟨crc, 0#64, 0#64⟩).bind (combineResults b rax block2)

def pieceWords (tmp : ℕ) : ℕ := if 128 * 24 ≤ tmp then 128 else 2731 * tmp / 2 ^ 16

theorem pieceWords_eq {tmp : ℕ} (h : tmp < 128 * 24) : pieceWords tmp = tmp / 24 := by
  rw [pieceWords, if_neg (by omega)]
  omega

theorem pieceWords_bounds {tmp : ℕ} (h : 200 ≤ tmp) :
    0 < pieceWords tmp ∧ pieceWords tmp ≤ 128 ∧ pieceWords tmp * 24 ≤ tmp := by
  rcases Nat.lt_or_ge tmp (128 * 24) with hlt | hge
  · rw [pieceWords_eq hlt]
    omega
  · rw [pieceWords, if_pos hge]
    omega

/-- `proc_block` and what is jumped back to from the check for the end. -/
def procBlock (crc : BitVec 64) (bufptmp tmp : ℕ) : Option (BitVec 64) :=
  if h : tmp < 200 then small b crc bufptmp tmp
  else
    have := pieceWords_bounds (Nat.not_lt.mp h)
    (threePieces b (pieceWords tmp) crc bufptmp).bind fun crc =>
      let bufptmp := bufptmp + pieceWords tmp * 24
      if 24 ≤ tmp - pieceWords tmp * 24 then procBlock crc bufptmp (tmp - pieceWords tmp * 24)
      else lessThan24 b crc bufptmp (tmp - pieceWords tmp * 24)
termination_by tmp

end Blocks

def alignLoop : ℕ → BitVec 64 → BitVec 64 → BitVec 64
  | 0, crc, _ => crc
  | k + 1, crc, tmp => alignLoop k (crc32 1 crc tmp) (tmp >>> 8)

/-- The initial value is the low half of a register. -/
def crcPcl (b : Buffer) (crcInit : BitVec 64) : Option (BitVec 32) :=
  -- neg bufp; and bufp, 7
  let bufp := (2 ^ 64 - b.address) % 2 ^ 64 &&& 7
  let len := b.bytes.length
  let result :=
    if bufp = 0 then procBlock b crcInit b.address len
    else if len < 8 then
      lessThan8PostShl1 b crcInit b.address (shl len 30).1 (shl len 30).2
    else
      (b.load 8 b.address).bind fun tmp =>
        procBlock b (alignLoop bufp crcInit tmp) (b.address + bufp) (len - bufp)
  result.map (BitVec.setWidth 32)

end SeamlessStack.Checksum

import SeamlessStack.Entry.Requests
import SeamlessStack.Sfsd.Read

/-! `sfs_send_read_status`, which copies what the servers sent into the buffer of the caller, by the
lengths of the responses; neither the size of the call nor the count of a request is looked at. -/
namespace SeamlessStack.Entry

open Lib

/-- Where the buffer is written, by position and length, and the number that is returned. -/
structure ReadStatus where
  writes : List (ℕ × ℕ)
  value : ℤ
  deriving DecidableEq, Repr

/-- The loop over the jobs. `buf` moves on with each of them, and `num_bytes` has 32 bits. -/
def copyReplies : ℕ → BitVec 32 → List (BitVec 64) → ReadStatus
  | _, numBytes, [] => ⟨[], numBytes.toInt⟩
  | buf, numBytes, dataLen :: rest =>
    let later := copyReplies (buf + dataLen.toNat) (numBytes + dataLen.setWidth 32) rest
    ⟨(buf, dataLen.toNat) :: later.writes, later.value⟩

def numJobsLeft (replies : List (Except ℤ Sfsd.ReadData)) : ℕ :=
  replies.countP fun reply => Sfsd.commandOk reply ≠ 100

def replyLen : Except ℤ Sfsd.ReadData → BitVec 64
  | .ok d => BitVec.ofInt 64 d.dataLen
  | .error _ => 0

/-- The messages, one with a function for its context and data for its `%s`, are left out. -/
def sfsSendReadStatus (replies : List (Except ℤ Sfsd.ReadData)) : ReadStatus :=
  if numJobsLeft replies ≠ 0 then ⟨[], -1⟩ else copyReplies 0 0 (replies.map replyLen)

section
variable (crc : Sfsd.Bytes → BitVec 32) (inode : Inode) (size offset : BitVec 64)

end

section
variable {crc : Sfsd.Bytes → BitVec 32} {inode : Inode} {size offset : BitVec 64}

end

end SeamlessStack.Entry

import SeamlessStack.Lib.Exits
import SeamlessStack.Sfs.Xattr

/-! The entry points of the file system that lock an inode, as the order of their calls and exits.
What the functions they call return is an input: a theorem about all inputs is one about every
pattern of failures. -/
namespace SeamlessStack.Entry
open Lib Body

inductive Mode
  | read
  | write
  deriving DecidableEq, Repr

/-- What a call does to inode locks; `taken` says whether the lock was obtained. -/
inductive LockOp
  | lock (mode : Mode) (num : BitVec 64) (taken : Bool)
  | unlock (num : BitVec 64)
  deriving DecidableEq, Repr

/-- The functions that return a number. -/
inductive IntCall
  | unlink
  | rmdir
  | sfsRdlock
  | sfsWrlock
  | getInode
  | putInode
  | delInode
  | stat
  | sfsJob2threadMapInsert
  | sfsSubmitJob
  | sfsJobContextInsert
  | sfsSendReadStatus
  | sfsSendWriteStatus
  | sstackMemcacheRemove
  | sstackMemcacheStore
  | xattrExists
  | appendXattr
  | replaceXattr
  | xattrRemove
  deriving DecidableEq, Repr

/-- The functions that return a pointer. -/
inductive PtrCall
  | sstackMemcacheReadOne
  | sstackCreateInode
  | createJobMap
  | sfsJobInit
  | sstackCreatePayload
  | reallocJobIds
  | reallocJobStatus
  | mallocSfsds
  deriving DecidableEq, Repr

structure Extent where
  offset : BitVec 64
  size : BitVec 64
  deriving DecidableEq, Repr

/-- The inode that `get_inode` reads. `extents` is memory from `i_extent` on, also behind the last;
`primary` and `sfsds` say whether the pointers are set. -/
structure Inode where
  numclients : ℤ
  primary : Bool
  sfsds : Bool
  size : BitVec 64
  numextents : ℕ
  extents : ℕ → Extent
  mode : BitVec 32
  xattr : Sfs.Bytes

/-- What the calls return, in which turn of a loop, and leave in memory; `num` is the inode
number. -/
structure World where
  ret : IntCall → ℕ → ℤ
  null : PtrCall → ℕ → Bool
  num : BitVec 64
  inode : Inode
  stSize : ℤ

variable (w : World)

abbrev Entered : Type := Body LockOp Unit

def World.lockRet : Mode → ℤ
  | .read => w.ret .sfsRdlock 0
  | .write => w.ret .sfsWrlock 0

def takeLock (mode : Mode) : Entered := do
  log [.lock mode w.num (w.lockRet mode ≠ -1)]
  exitIf (w.lockRet mode = -1) [] (-1)

/-- From `sfs_job_init` to `sfs_submit_job`, in the turn `i` of a loop. -/
def submit (i : ℕ) (ready : Bool) : Entered := do
  exitIf (w.null .sfsJobInit i) [.unlock w.num] (-1)
  crashIf (ready = false ∨ w.null .sstackCreatePayload i)
  exitIf (w.null .reallocJobIds i) [.unlock w.num] (-1)
  exitIf (w.null .reallocJobStatus i) [.unlock w.num] (-1)
  exitIf (w.ret .sfsJob2threadMapInsert i = -1) [.unlock w.num] (-1)
  exitIf (w.ret .sfsSubmitJob i = -1) [.unlock w.num] (-1)

/-- What `sfs_unlink` and `sfs_rmdir` do once they have the inode. -/
def removeInode : Entered := do
  exitIf (w.null .createJobMap 0) [.unlock w.num] (-1)
  submit w 0 w.inode.primary
  exitIf (w.ret .sfsJobContextInsert 0 = -1) [.unlock w.num] (-1)
  exitIf (w.ret .delInode 0 ≠ 0) [.unlock w.num] (-1)
  exitIf (w.ret .sstackMemcacheRemove 0 ≠ 0) [.unlock w.num] (-1)
  leave [.unlock w.num] 0

/-- A path is a pointer, of which here matters whether it is null. -/
def sfsUnlink (path : Bool) : Entered := do
  exitIf (path = false) [] (-1)
  exitIf (w.ret .unlink 0 = -1) [] (-1)
  exitIf (w.null .sstackMemcacheReadOne 0) [] (-1)
  takeLock w .write
  exitIf (w.ret .getInode 0 ≠ 0) [.unlock w.num] (-1)
  removeInode w

/-- Here the exit after `get_inode` does not unlock. -/
def sfsRmdir (path : Bool) : Entered := do
  exitIf (path = false) [] (-1)
  exitIf (w.ret .rmdir 0 = -1) [] (-1)
  exitIf (w.null .sstackMemcacheReadOne 0) [] (-1)
  takeLock w .write
  exitIf (w.ret .getInode 0 ≠ 0) [] (-1)
  removeInode w

/-! ### Reading and writing -/

def Extent.stop (e : Extent) : BitVec 64 := e.offset + e.size

def Extent.Covers (e : Extent) (offset : BitVec 64) : Prop := e.offset ≤ offset ∧ offset ≤ e.stop

instance (e : Extent) (offset : BitVec 64) : Decidable (e.Covers offset) :=
  inferInstanceAs (Decidable (_ ∧ _))

def Extent.part (e : Extent) (size offset : BitVec 64) : BitVec 64 :=
  if e.stop < offset + size then e.stop - offset else 0

/-- The first extent that covers the offset, or the place behind the last one. -/
def Inode.readExtent (inode : Inode) (offset : BitVec 64) : Option ℕ :=
  if inode.numextents = 0 then none
  else some (((List.range inode.numextents).find? fun i =>
    (inode.extents i).Covers offset).getD inode.numextents)

def Inode.writeExtent (inode : Inode) (offset : BitVec 64) : Option ℕ :=
  if inode.numextents = 0 then none
  else if (inode.extents 0).Covers offset then some 0
  else some 1

/-- The variables of the loop of `sfs_read`. -/
structure ReadLoop where
  bytesToRead : BitVec 32
  bytesIssued : BitVec 64

/-- What was issued so far is taken off in every turn. -/
def readTurn (size offset : BitVec 64) (i : ℕ) (s : ReadLoop) : Body LockOp ReadLoop := do
  let extent := w.inode.readExtent offset
  submit w i (w.inode.primary && extent.isSome)
  let readSize := match extent with
    | some e => (w.inode.extents e).part size offset
    | none => 0
  let issued := s.bytesIssued + readSize
  return ⟨s.bytesToRead - issued.setWidth 32, issued⟩

def sfsRead (fuel : ℕ) (path buf : Bool) (size offset : BitVec 64) : Entered := do
  exitIf (path = false ∨ buf = false ∨ offset.toInt < 0) [] (-1)
  exitIf (w.null .sstackMemcacheReadOne 0) [] (-1)
  takeLock w .read
  exitIf (w.null .sstackCreateInode 0) [] (-12)
  exitIf (w.ret .getInode 0 ≠ 0) [.unlock w.num] (-1)
  exitIf (w.inode.numclients = 0 ∧ w.inode.primary = false) [.unlock w.num] (-1)
  exitIf (w.null .createJobMap 0) [.unlock w.num] (-1)
  let bytesToRead := if w.inode.size < size then w.inode.size else size
  let _ ← turns (fun s : ReadLoop => s.bytesToRead ≠ 0) (readTurn w size offset) fuel 0
    ⟨bytesToRead.setWidth 32, 0⟩
  exitIf (w.ret .sfsJobContextInsert 0 = -1) [.unlock w.num] (-1)
  leave [.unlock w.num] (w.ret .sfsSendReadStatus 0)

structure WriteLoop where
  extent : Option ℕ
  bytesToWrite : BitVec 32
  bytesIssued : BitVec 64

def writeTurn (size offset : BitVec 64) (i : ℕ) (s : WriteLoop) : Body LockOp WriteLoop := do
  submit w i true
  let writeSize := match s.extent with
    | some e => (w.inode.extents e).part size offset
    | none => size
  let issued := s.bytesIssued + writeSize
  let extent := s.extent.map fun e => if (w.inode.extents e).stop < offset + size then e + 1 else e
  return ⟨extent, (size - issued).setWidth 32, issued⟩

/-- Two exits do not unlock: without memory for the inode, and when it cannot be stored. -/
def sfsWrite (fuel : ℕ) (path buf : Bool) (size offset : BitVec 64) : Entered := do
  exitIf (path = false ∨ buf = false ∨ offset.toInt < 0) [] (-1)
  exitIf (w.null .sstackMemcacheReadOne 0) [] (-1)
  takeLock w .write
  exitIf (w.null .sstackCreateInode 0) [] (-12)
  exitIf (w.ret .getInode 0 ≠ 0) [.unlock w.num] (-1)
  exitIf (w.ret .stat 0 = -1) [.unlock w.num] (-1)
  exitIf (0 < w.stSize ∧ (w.inode.numclients = 0 ∨ w.inode.sfsds = false)) [.unlock w.num] (-1)
  crashIf (w.null .mallocSfsds 0)
  exitIf (w.ret .putInode 0 ≠ 0) [] (-1)
  exitIf (w.null .createJobMap 0) [.unlock w.num] (-1)
  let _ ← turns (fun s : WriteLoop => s.bytesToWrite ≠ 0) (writeTurn w size offset) fuel 0
    ⟨w.inode.writeExtent offset, size.setWidth 32, 0⟩
  exitIf (w.ret .sfsJobContextInsert 0 = -1) [.unlock w.num] (-1)
  leave [.unlock w.num] (w.ret .sfsSendWriteStatus 0)

/-! ### The other entry points -/

/-- A null path is not checked for, and ends the process in `strlen`. -/
def sfsRename (src dst : Bool) : Entered := do
  crashIf (src = false)
  exitIf (w.null .sstackMemcacheReadOne 0) [] (-1)
  takeLock w .write
  exitIf (w.ret .getInode 0 ≠ 0) [.unlock w.num] (-1)
  crashIf (dst = false)
  exitIf (w.ret .putInode 0 = -1) [.unlock w.num] (-1)
  exitIf (w.ret .sstackMemcacheRemove 0 ≠ 0) [.unlock w.num] (-1)
  exitIf (w.ret .sstackMemcacheStore 0 ≠ 0) [.unlock w.num] (-1)
  leave [.unlock w.num] 0

/-- `garbage` is the variable `size`, which is tested before it is set. -/
def sfsSetxattr (path name value : Bool) (garbage : BitVec 64) (flags : ℤ) : Entered := do
  exitIf (path = false ∨ name = false ∨ value = false ∨ garbage = 0) [] (-1)
  exitIf (w.null .sstackMemcacheReadOne 0) [] (-1)
  takeLock w .read
  exitIf (w.ret .getInode 0 ≠ 0) [.unlock w.num] (-1)
  if flags = Sfs.xattrCreate then do
    exitIf (w.ret .xattrExists 0 = 1) [.unlock w.num] (-1)
    exitIf (w.ret .appendXattr 0 = -1) [.unlock w.num] (-1)
    leave [.unlock w.num] 0
  else if flags = Sfs.xattrReplace then do
    exitIf (w.ret .xattrExists 0 ≠ 1) [.unlock w.num] (-1)
    exitIf (w.ret .replaceXattr 0 = -1) [.unlock w.num] (-1)
    leave [.unlock w.num] 0
  else if flags = 0 then
    if w.ret .xattrExists 0 = 1 then do
      exitIf (w.ret .replaceXattr 0 = -1) [.unlock w.num] (-1)
      leave [.unlock w.num] 0
    else do
      exitIf (w.ret .appendXattr 0 = -1) [.unlock w.num] (-1)
      leave [.unlock w.num] 0
  else leave [.unlock w.num] (-1)

/-- The name is compared before it is checked, and a null one ends the process. -/
def sfsGetxattr (path : Option (List Char)) (name : Option Sfs.Bytes) (value : Bool)
    (size : BitVec 64) : Entered := do
  crashIf (name = none)
  exitIf (name = some Sfs.securityIma) [] (-1)
  exitIf (path = none ∨ value = false ∨ size = 0) [] (-1)
  exitIf (path = some ['.'] ∨ path = some ['.', '.']) [] 0
  exitIf (w.null .sstackMemcacheReadOne 0) [] (-1)
  takeLock w .read
  exitIf (w.ret .getInode 0 ≠ 0) [.unlock w.num] (-1)
  match Sfs.findField w.inode.xattr (name.getD []) with
  | .error _ => stop .crashed
  | .ok (some field, _) =>
    let copied := ((w.inode.xattr.drop field.place).take size.toNat).takeWhile (· ≠ 0)
    crashIf (w.inode.xattr.length ≤ field.place + copied.length)
    leave [.unlock w.num] copied.length
  | .ok (none, _) => leave [.unlock w.num] (-1)

/-- The second exit for `security.ima` comes after the lock, and after the first one. -/
def sfsRemovexattr (path : Bool) (name : Option Sfs.Bytes) : Entered := do
  crashIf (name = none)
  exitIf (name = some Sfs.securityIma) [] (-1)
  exitIf (path = false) [] (-1)
  exitIf (w.null .sstackMemcacheReadOne 0) [] (-1)
  takeLock w .write
  exitIf (w.ret .getInode 0 ≠ 0) [.unlock w.num] (-1)
  exitIf (w.ret .xattrRemove 0 = -1 ∧ name ≠ some Sfs.securityIma) [.unlock w.num] (-1)
  exitIf (name = some Sfs.securityIma) [] 0
  exitIf (w.ret .putInode 0 ≠ 0) [.unlock w.num] (-1)
  leave [.unlock w.num] 0

def fOk : BitVec 32 := 0

def sfsAccess (path : Option (List Char)) (mode : BitVec 32) : Entered := do
  exitIf (path = none ∨ mode = 0) [] (-1)
  exitIf (path = some ['/']) [] 0
  exitIf (w.null .sstackMemcacheReadOne 0) [] (-1)
  takeLock w .read
  exitIf (w.ret .getInode 0 ≠ 0) [.unlock w.num] (-1)
  exitIf (mode &&& fOk ≠ 0) [.unlock w.num] 0
  exitIf (w.inode.mode &&& mode ≠ 0) [.unlock w.num] 0
  leave [.unlock w.num] (-1)

/-- A call of an entry point. -/
inductive EntryCall
  | unlink (path : Bool)
  | rmdir (path : Bool)
  | read (path buf : Bool) (size offset : BitVec 64)
  | write (path buf : Bool) (size offset : BitVec 64)
  | rename (src dst : Bool)
  | setxattr (path name value : Bool) (garbage : BitVec 64) (flags : ℤ)
  | getxattr (path : Option (List Char)) (name : Option Sfs.Bytes) (value : Bool)
      (size : BitVec 64)
  | removexattr (path : Bool) (name : Option Sfs.Bytes)
  | access (path : Option (List Char)) (mode : BitVec 32)

/-- The function that is called, with fuel for its loop if it has one. -/
def EntryCall.body (fuel : ℕ) : EntryCall → Entered
  | .unlink path => sfsUnlink w path
  | .rmdir path => sfsRmdir w path
  | .read path buf size offset => sfsRead w fuel path buf size offset
  | .write path buf size offset => sfsWrite w fuel path buf size offset
  | .rename src dst => sfsRename w src dst
  | .setxattr path name value garbage flags => sfsSetxattr w path name value garbage flags
  | .getxattr path name value size => sfsGetxattr w path name value size
  | .removexattr path name => sfsRemovexattr w path name
  | .access path mode => sfsAccess w path mode

end SeamlessStack.Entry

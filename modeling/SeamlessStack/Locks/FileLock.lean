import Mathlib.Tactic
import SeamlessStack.Lib.Runs

/-! The file lock tree: one node with one state word for each locked inode. Nodes are never freed,
so a thread may hold the address of a node that has left the tree. -/
namespace SeamlessStack.Locks

open Function

inductive LockState
  | rdlocked
  | wrlocked
  | unlocked
  deriving DecidableEq, Repr

inductive Errno
  | eagain
  | enomem
  | enoent
  deriving DecidableEq, Repr

structure FileLock where
  inodeNum : ℕ
  state : LockState
  deriving DecidableEq, Repr

/-- The nodes by address, the first unused address, and `filelock_tree` as a set of nodes. -/
structure LockTree where
  nodes : ℕ → FileLock
  unused : ℕ
  filelockTree : ℕ → Option ℕ

namespace LockTree

def setState (m : LockTree) (k : ℕ) (state : LockState) : LockTree :=
  { m with nodes := update m.nodes k { m.nodes k with state } }

/-- The tree keeps the node it has for a key. -/
def filelockTreeInsert (m : LockTree) (k : ℕ) : LockTree :=
  if (m.filelockTree (m.nodes k).inodeNum).isSome then m
  else { m with filelockTree := update m.filelockTree (m.nodes k).inodeNum (some k) }

def filelockTreeRemove (m : LockTree) (k : ℕ) : LockTree :=
  { m with filelockTree := update m.filelockTree (m.nodes k).inodeNum none }

def createFilelocktreeNode (m : LockTree) (inodeNum : ℕ) (state : LockState) : LockTree :=
  { m with nodes := update m.nodes m.unused ⟨inodeNum, state⟩, unused := m.unused + 1 }

/-- `sfs_rdlock`; `ok` is whether the allocation of a node succeeds. -/
def sfsRdlock (m : LockTree) (inodeNum : ℕ) (ok : Bool) : LockTree × Except Errno Unit :=
  match m.filelockTree inodeNum with
  | none =>
    if ok then
      ((m.createFilelocktreeNode inodeNum .rdlocked).filelockTreeInsert m.unused, .ok ())
    else (m, .error .enomem)
  | some k => match (m.nodes k).state with
    | .rdlocked => (m, .ok ())
    | .wrlocked => (m, .error .eagain)
    | .unlocked => ((m.setState k .rdlocked).filelockTreeInsert k, .ok ())

/-- `sfs_wrlock` until it gives up `filelock_lock`: it returns, or goes on with a node. -/
def sfsWrlockFind (m : LockTree) (inodeNum : ℕ) (ok : Bool) :
    LockTree × Except Errno Unit ⊕ ℕ :=
  match m.filelockTree inodeNum with
  | none =>
    if ok then
      .inl ((m.createFilelocktreeNode inodeNum .wrlocked).filelockTreeInsert m.unused, .ok ())
    else .inl (m, .error .enomem)
  | some k => .inr k

/-- The part of `sfs_wrlock` under the lock of the node it found. -/
def sfsWrlockNode (m : LockTree) (k : ℕ) : LockTree × Except Errno Unit :=
  match (m.nodes k).state with
  | .rdlocked => (m, .error .eagain)
  | .wrlocked => (m, .error .eagain)
  | .unlocked => (m.setState k .wrlocked, .ok ())

def sfsUnlock (m : LockTree) (inodeNum : ℕ) : LockTree × Except Errno Unit :=
  match m.filelockTree inodeNum with
  | none => (m, .error .enoent)
  | some k => ((m.setState k .unlocked).filelockTreeRemove k, .ok ())

end LockTree

inductive Mode
  | read
  | write
  deriving DecidableEq, Repr

/-- A lock that a call returned 0 for and that its thread did not unlock since. -/
structure Grant where
  thread : ℕ
  inode : ℕ
  mode : Mode
  deriving DecidableEq, Repr

/-- Where a thread stands in `sfs_wrlock` between two sections; `idle` is outside of it. -/
inductive Pc
  | idle
  | found (k inode : ℕ)
  | insert (k inode : ℕ)
  deriving DecidableEq, Repr

def Pc.node : Pc → Option ℕ
  | .found k _ => some k
  | _ => none

structure Threads where
  mem : LockTree
  pcs : ℕ → Pc
  grants : List Grant

inductive Event
  | rdlock (thread inode : ℕ) (ok : Bool)
  | wrlock (thread inode : ℕ) (ok : Bool)
  | wrlockNode (thread : ℕ)
  | wrlockInsert (thread : ℕ)
  | unlock (thread inode : ℕ)
  deriving DecidableEq, Repr

def Threads.finish (s : Threads) (g : Grant) : LockTree × Except Errno Unit → Threads
  | (mem, .ok ()) => { s with mem, grants := g :: s.grants }
  | (mem, .error _) => { s with mem }

/-- One stretch of code under `filelock_lock` or a node's lock, or the insertion by `sfs_wrlock`
that is under neither. A thread unlocks only what it was granted. -/
def step (s : Threads) : Event → Option Threads
  | .rdlock t i ok =>
    if s.pcs t = .idle then some (s.finish ⟨t, i, .read⟩ (s.mem.sfsRdlock i ok)) else none
  | .wrlock t i ok =>
    if s.pcs t = .idle then
      match s.mem.sfsWrlockFind i ok with
      | .inl r => some (s.finish ⟨t, i, .write⟩ r)
      | .inr k => some { s with pcs := update s.pcs t (.found k i) }
    else none
  | .wrlockNode t => match s.pcs t with
    | .found k i => match s.mem.sfsWrlockNode k with
      | (mem, .ok ()) => some { s with mem, pcs := update s.pcs t (.insert k i) }
      | (mem, .error _) => some { s with mem, pcs := update s.pcs t .idle }
    | _ => none
  | .wrlockInsert t => match s.pcs t with
    | .insert k i =>
      some { mem := s.mem.filelockTreeInsert k
             pcs := update s.pcs t .idle
             grants := ⟨t, i, .write⟩ :: s.grants }
    | _ => none
  | .unlock t i =>
    if s.pcs t = .idle then
      match s.grants.find? fun g => g.thread = t ∧ g.inode = i with
      | none => none
      | some g => match s.mem.sfsUnlock i with
        | (mem, .ok ()) => some { s with mem, grants := s.grants.erase g }
        | (mem, .error _) => some { s with mem }
    else none

def start : Threads where
  mem := ⟨fun _ => ⟨0, .unlocked⟩, 0, fun _ => none⟩
  pcs := fun _ => .idle
  grants := []

def lockSystem : Lib.System Threads Event where
  init s := s = start
  step := step

end SeamlessStack.Locks

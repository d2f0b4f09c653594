import SeamlessStack.Entry.Calls

/-! Which exits of the entry points leave the inode locked. A call is balanced if no lock is held at
its end and nothing was unlocked that was not held. Pieces of a function that go on with the lock
held, and unlock wherever they leave, may follow one another. -/
namespace SeamlessStack.Entry
open Lib Body

/-- The lock that is held after the operations, if each of them was in order. -/
def held : Option (BitVec 64) → List LockOp → Option (Option (BitVec 64))
  | h, [] => some h
  | h, .lock _ _ false :: ops => held h ops
  | none, .lock _ n true :: ops => held (some n) ops
  | some n, .unlock m :: ops => if m = n then held none ops else none
  | _, _ => none

/-- Every lock that was taken was released once, and nothing else was. -/
def Balanced (ops : List LockOp) : Prop := held none ops = some none

instance (ops : List LockOp) : Decidable (Balanced ops) := inferInstanceAs (Decidable (_ = _))

theorem held_append (h : Option (BitVec 64)) (ops ops' : List LockOp) :
    held h (ops ++ ops') = (held h ops).bind fun h => held h ops' := by
  induction ops generalizing h with
  | nil => rfl
  | cons op ops ih =>
    cases op with
    | lock mode n taken => cases taken <;> cases h <;> simp [held, ih]
    | unlock m =>
      cases h with
      | none => rfl
      | some n =>
        by_cases hm : m = n
        · simp [held, hm, ih]
        · simp [held, hm]

def At (h : Option (BitVec 64)) (ops : List LockOp) : Prop := held none ops = some h

def Released (e : Exit) (ops : List LockOp) : Prop := ∀ ret, e = .returned ret → Balanced ops

section Steps
variable {w : World} {n : BitVec 64} {l : List LockOp}

theorem At.lock (h : At none l) (mode : Mode) (n : BitVec 64) (taken : Bool) :
    At (if taken then some n else none) (l ++ [.lock mode n taken]) := by
  unfold At at h ⊢
  rw [held_append, h]
  cases taken <;> rfl

theorem At.unlock (h : At (some n) l) : Balanced (l ++ [.unlock n]) := by
  unfold At at h
  rw [Balanced, held_append, h]
  simp [held]

theorem released_unlock (ret : ℤ) :
    ∀ l, At (some n) l → Released (.returned ret) (l ++ [.unlock n]) :=
  fun _ hl _ _ => hl.unlock

theorem released_return (ret : ℤ) : ∀ l, At none l → Released (.returned ret) (l ++ []) := by
  intro l hl _ _
  rw [List.append_nil]
  exact hl

theorem released_crashed : Released .crashed l := by
  rintro _ ⟨⟩

theorem released_running : Released .running l := by
  rintro _ ⟨⟩

end Steps

/-! ### Pieces that hold the lock -/

section Pieces
variable {w : World} {α : Type} {R : α → List LockOp → Prop} {g : Unit → Body LockOp α}
  {p : Prop} [Decidable p] {ret : ℤ} {h : Option (BitVec 64)}

theorem meets_takeLock {mode : Mode}
    (hg : w.lockRet mode ≠ -1 → Meets (At (some w.num)) (g ()) R Released) :
    Meets (At none) (takeLock w mode >>= g) R Released := by
  unfold takeLock
  by_cases hgrant : w.lockRet mode = -1
  · refine .bind (Q := fun _ _ => False) ?_ fun _ _ hfalse => hfalse.elim
    refine .log_bind (At none) ?_ ?_
    · intro l hl
      simpa [hgrant] using hl.lock mode w.num false
    · unfold exitIf
      rw [if_pos hgrant]
      exact .leave (released_return _)
  · refine .bind (Q := fun _ => At (some w.num)) ?_ fun _ => hg hgrant
    refine .log_bind (At (some w.num)) ?_ (.exitIf fun hnot => absurd hnot hgrant)
    intro l hl
    simpa [hgrant] using hl.lock mode w.num true

theorem meets_return (hg : ¬ p → Meets (At none) (g ()) R Released) :
    Meets (At none) (exitIf p [] ret >>= g) R Released :=
  .exitIf_bind (fun _ => released_return ret) hg

theorem meets_unlock (hg : ¬ p → Meets (At (some w.num)) (g ()) R Released) :
    Meets (At (some w.num)) (exitIf p [.unlock w.num] ret >>= g) R Released :=
  .exitIf_bind (fun _ => released_unlock ret) hg

theorem meets_crash (hg : ¬ p → Meets (At h) (g ()) R Released) :
    Meets (At h) (crashIf p >>= g) R Released :=
  .crashIf_bind (fun _ _ _ => released_crashed) hg

theorem meets_leave : Meets (At (some w.num)) (leave [.unlock w.num] ret) R Released :=
  .leave (released_unlock ret)

theorem meets_submit (w : World) (i : ℕ) (ready : Bool) :
    Meets (At (some w.num)) (submit w i ready) (fun _ => At (some w.num)) Released := by
  unfold submit
  refine meets_unlock fun _ => ?_
  refine meets_crash fun _ => ?_
  refine meets_unlock fun _ => ?_
  refine meets_unlock fun _ => ?_
  refine meets_unlock fun _ => ?_
  exact .exitIf fun _ => released_unlock _

theorem meets_removeInode (w : World) :
    Meets (At (some w.num)) (removeInode w) (fun _ => At (some w.num)) Released := by
  unfold removeInode
  refine meets_unlock fun _ => ?_
  refine .bind (meets_submit w 0 _) fun _ => ?_
  refine meets_unlock fun _ => ?_
  refine meets_unlock fun _ => ?_
  refine meets_unlock fun _ => ?_
  exact meets_leave

theorem meets_readTurn (w : World) (size offset : BitVec 64) (i : ℕ) (s : ReadLoop) :
    Meets (At (some w.num)) (readTurn w size offset i s) (fun _ => At (some w.num)) Released :=
  .bind (meets_submit w i _) fun _ => .pure fun _ hl => hl

theorem meets_writeTurn (w : World) (size offset : BitVec 64) (i : ℕ) (s : WriteLoop) :
    Meets (At (some w.num)) (writeTurn w size offset i s) (fun _ => At (some w.num)) Released :=
  .bind (meets_submit w i _) fun _ => .pure fun _ hl => hl

end Pieces

/-! ### The exits that do not unlock -/

def World.Locks (w : World) (mode : Mode) : Prop :=
  w.null .sstackMemcacheReadOne 0 = false ∧ w.lockRet mode ≠ -1

/-- `sfs_write` gets to the point where it stores the inode. -/
structure World.Stores (w : World) : Prop where
  created : w.null .sstackCreateInode 0 = false
  got : w.ret .getInode 0 = 0
  stat : w.ret .stat 0 ≠ -1
  sound : ¬ (0 < w.stSize ∧ (w.inode.numclients = 0 ∨ w.inode.sfsds = false))
  sfsds : w.null .mallocSfsds 0 = false

/-- The failures after which a call returns with the inode locked. -/
def EntryCall.Leaks (w : World) : EntryCall → Prop
  | .rmdir path => path = true ∧ w.ret .rmdir 0 ≠ -1 ∧ w.Locks .write ∧ w.ret .getInode 0 ≠ 0
  | .read path buf _ offset => (path = true ∧ buf = true ∧ 0 ≤ offset.toInt) ∧ w.Locks .read ∧
      w.null .sstackCreateInode 0 = true
  | .write path buf _ offset => (path = true ∧ buf = true ∧ 0 ≤ offset.toInt) ∧ w.Locks .write ∧
      (w.null .sstackCreateInode 0 = true ∨ w.Stores ∧ w.ret .putInode 0 ≠ 0)
  | _ => False

section Exits
variable {w : World}

theorem meets_sfsUnlink (path : Bool) :
    Meets (At none) (sfsUnlink w path) (fun _ => At (some w.num)) Released := by
  unfold sfsUnlink
  refine meets_return fun _ => ?_
  refine meets_return fun _ => ?_
  refine meets_return fun _ => ?_
  refine meets_takeLock fun _ => ?_
  refine meets_unlock fun _ => ?_
  exact meets_removeInode w

theorem meets_sfsRmdir {path : Bool} (hleak : ¬ (EntryCall.rmdir path).Leaks w) :
    Meets (At none) (sfsRmdir w path) (fun _ => At (some w.num)) Released := by
  unfold sfsRmdir
  refine meets_return fun hpath => ?_
  refine meets_return fun hrmdir => ?_
  refine meets_return fun hread => ?_
  refine meets_takeLock fun hlock => ?_
  refine .exitIf_bind (fun hget => ?_) fun _ => meets_removeInode w
  exact absurd ⟨by simpa using hpath, hrmdir, ⟨by simpa using hread, hlock⟩, hget⟩ hleak

theorem meets_sfsRead {path buf : Bool} {size offset : BitVec 64} (fuel : ℕ)
    (hleak : ¬ (EntryCall.read path buf size offset).Leaks w) :
    Meets (At none) (sfsRead w fuel path buf size offset) (fun _ => At (some w.num)) Released := by
  unfold sfsRead
  refine meets_return fun hparams => ?_
  refine meets_return fun hread => ?_
  refine meets_takeLock fun hlock => ?_
  refine .exitIf_bind (fun hcreate => ?_) fun _ => ?_
  · exact absurd ⟨by simpa using hparams, ⟨by simpa using hread, hlock⟩, hcreate⟩ hleak
  refine meets_unlock fun _ => ?_
  refine meets_unlock fun _ => ?_
  refine meets_unlock fun _ => ?_
  refine .bind (.turns (fun _ _ => released_running) (meets_readTurn w size offset) fuel 0 _) ?_
  intro _
  refine meets_unlock fun _ => ?_
  exact meets_leave

theorem meets_sfsWrite {path buf : Bool} {size offset : BitVec 64} (fuel : ℕ)
    (hleak : ¬ (EntryCall.write path buf size offset).Leaks w) :
    Meets (At none) (sfsWrite w fuel path buf size offset) (fun _ => At (some w.num)) Released := by
  unfold sfsWrite
  refine meets_return fun hparams => ?_
  refine meets_return fun hread => ?_
  refine meets_takeLock fun hlock => ?_
  have hstart : (path = true ∧ buf = true ∧ 0 ≤ offset.toInt) ∧ w.Locks .write :=
    ⟨by simpa using hparams, by simpa using hread, hlock⟩
  refine .exitIf_bind (fun hcreate => ?_) fun hcreate => ?_
  · exact absurd ⟨hstart.1, hstart.2, Or.inl hcreate⟩ hleak
  refine meets_unlock fun hget => ?_
  refine meets_unlock fun hstat => ?_
  refine meets_unlock fun hsound => ?_
  refine meets_crash fun hmalloc => ?_
  refine .exitIf_bind (fun hput => ?_) fun _ => ?_
  · have hstores : w.Stores :=
      ⟨by simpa using hcreate, by simpa using hget, hstat, hsound, by simpa using hmalloc⟩
    exact absurd ⟨hstart.1, hstart.2, Or.inr ⟨hstores, hput⟩⟩ hleak
  refine meets_unlock fun _ => ?_
  refine .bind (.turns (fun _ _ => released_running) (meets_writeTurn w size offset) fuel 0 _) ?_
  intro _
  refine meets_unlock fun _ => ?_
  exact meets_leave

theorem meets_sfsRename (src dst : Bool) :
    Meets (At none) (sfsRename w src dst) (fun _ => At (some w.num)) Released := by
  unfold sfsRename
  refine meets_crash fun _ => ?_
  refine meets_return fun _ => ?_
  refine meets_takeLock fun _ => ?_
  refine meets_unlock fun _ => ?_
  refine meets_crash fun _ => ?_
  refine meets_unlock fun _ => ?_
  refine meets_unlock fun _ => ?_
  refine meets_unlock fun _ => ?_
  exact meets_leave

theorem meets_sfsSetxattr (path name value : Bool) (garbage : BitVec 64) (flags : ℤ) :
    Meets (At none) (sfsSetxattr w path name value garbage flags) (fun _ => At (some w.num))
      Released := by
  unfold sfsSetxattr
  refine meets_return fun _ => ?_
  refine meets_return fun _ => ?_
  refine meets_takeLock fun _ => ?_
  refine meets_unlock fun _ => ?_
  split_ifs
  · exact meets_unlock fun _ => meets_unlock fun _ => meets_leave
  · exact meets_unlock fun _ => meets_unlock fun _ => meets_leave
  · exact meets_unlock fun _ => meets_leave
  · exact meets_unlock fun _ => meets_leave
  · exact meets_leave

theorem meets_sfsGetxattr (path : Option (List Char)) (name : Option Sfs.Bytes) (value : Bool)
    (size : BitVec 64) : Meets (At none) (sfsGetxattr w path name value size)
      (fun _ => At (some w.num)) Released := by
  unfold sfsGetxattr
  refine meets_crash fun _ => ?_
  refine meets_return fun _ => ?_
  refine meets_return fun _ => ?_
  refine meets_return fun _ => ?_
  refine meets_return fun _ => ?_
  refine meets_takeLock fun _ => ?_
  refine meets_unlock fun _ => ?_
  split
  · exact .stop fun _ _ => released_crashed
  · exact meets_crash fun _ => meets_leave
  · exact meets_leave

theorem meets_sfsRemovexattr (path : Bool) (name : Option Sfs.Bytes) :
    Meets (At none) (sfsRemovexattr w path name) (fun _ => At (some w.num)) Released := by
  unfold sfsRemovexattr
  refine meets_crash fun _ => ?_
  refine meets_return fun hima => ?_
  refine meets_return fun _ => ?_
  refine meets_return fun _ => ?_
  refine meets_takeLock fun _ => ?_
  refine meets_unlock fun _ => ?_
  refine meets_unlock fun _ => ?_
  -- this exit would leave the lock, but the call has returned before for the same name
  refine .exitIf_bind (fun hima' => absurd hima' hima) fun _ => ?_
  refine meets_unlock fun _ => ?_
  exact meets_leave

theorem meets_sfsAccess (path : Option (List Char)) (mode : BitVec 32) :
    Meets (At none) (sfsAccess w path mode) (fun _ => At (some w.num)) Released := by
  unfold sfsAccess
  refine meets_return fun _ => ?_
  refine meets_return fun _ => ?_
  refine meets_return fun _ => ?_
  refine meets_takeLock fun _ => ?_
  refine meets_unlock fun _ => ?_
  refine meets_unlock fun _ => ?_
  refine meets_unlock fun _ => ?_
  exact meets_leave

theorem EntryCall.meets_body {call : EntryCall} (fuel : ℕ) (hleak : ¬ call.Leaks w) :
    Meets (At none) (call.body w fuel) (fun _ => At (some w.num)) Released := by
  cases call with
  | unlink path => exact meets_sfsUnlink path
  | rmdir path => exact meets_sfsRmdir hleak
  | read path buf size offset => exact meets_sfsRead fuel hleak
  | write path buf size offset => exact meets_sfsWrite fuel hleak
  | rename src dst => exact meets_sfsRename src dst
  | setxattr path name value garbage flags => exact meets_sfsSetxattr path name value garbage flags
  | getxattr path name value size => exact meets_sfsGetxattr path name value size
  | removexattr path name => exact meets_sfsRemovexattr path name
  | access path mode => exact meets_sfsAccess path mode

theorem takeLock_bind {mode : Mode} (hlock : w.lockRet mode ≠ -1) (g : Unit → Entered)
    (l : List LockOp) : (takeLock w mode >>= g) l = g () (l ++ [.lock mode w.num true]) := by
  have hexit : exitIf (w.lockRet mode = -1) [] (-1) = (pure () : Entered) := if_neg hlock
  have htaken : decide (w.lockRet mode ≠ -1) = true := decide_eq_true hlock
  rw [takeLock, hexit, htaken]
  rfl

/-- A call that leaks returns, and the lock is the only thing in its log. -/
theorem EntryCall.Leaks.returns {call : EntryCall} (hleak : call.Leaks w) (fuel : ℕ) :
    ∃ ret mode, call.body w fuel [] = (.error (.returned ret), [.lock mode w.num true]) := by
  cases call with
  | rmdir path =>
    obtain ⟨rfl, hrmdir, ⟨hread, hlock⟩, hget⟩ := hleak
    refine ⟨-1, .write, ?_⟩
    simp [EntryCall.body, sfsRmdir, exitIf_bind, hrmdir, hread, takeLock_bind hlock, hget]
  | read path buf size offset =>
    obtain ⟨⟨rfl, rfl, hoffset⟩, ⟨hread, hlock⟩, hcreate⟩ := hleak
    refine ⟨-12, .read, ?_⟩
    simp [EntryCall.body, sfsRead, exitIf_bind, hoffset.not_gt, hread, takeLock_bind hlock, hcreate]
  | write path buf size offset =>
    obtain ⟨⟨rfl, rfl, hoffset⟩, ⟨hread, hlock⟩,
      hcreate | ⟨⟨hcreate, hget, hstat, hsound, hsfsds⟩, hput⟩⟩ :=
      hleak
    · refine ⟨-12, .write, ?_⟩
      simp [EntryCall.body, sfsWrite, exitIf_bind, hoffset.not_gt, hread, takeLock_bind hlock,
        hcreate]
    · refine ⟨-1, .write, ?_⟩
      simp [EntryCall.body, sfsWrite, exitIf_bind, crashIf_bind, hoffset.not_gt, hread,
        takeLock_bind hlock, hcreate, hget, hstat, hsound, hsfsds, hput]
  | _ => exact hleak.elim

end Exits

/-- A call is balanced whenever it returns, unless it fails at one of the exits that do not
unlock. -/
theorem lock_balanced_iff (w : World) (call : EntryCall) :
    (∀ fuel ret ops, call.body w fuel [] = (.error (.returned ret), ops) → Balanced ops) ↔
      ¬ call.Leaks w := by
  constructor
  · intro h hleak
    obtain ⟨ret, mode, hrun⟩ := hleak.returns 0
    have hbalanced := h 0 ret _ hrun
    exact absurd hbalanced (by simp [Balanced, held])
  · intro hleak fuel ret ops hrun
    exact ((call.meets_body fuel hleak) [] rfl).2 _ _ hrun ret rfl

/-- An empty file, and calls that succeed but for those given. -/
def failing (int : IntCall → ℤ) (ptr : PtrCall → Bool) : World where
  ret call _ := int call
  null call _ := ptr call
  num := 7
  inode := ⟨1, true, true, 0, 0, fun _ => ⟨0, 0⟩, 0, []⟩
  stSize := 0

/-- `sfs_rmdir` without the inode, `sfs_read` and `sfs_write` without memory for it, and a
`sfs_write` that cannot store it, return with the lock taken. -/
theorem lock_leaks :
    (EntryCall.rmdir true).body (failing (fun c => if c = .getInode then 2 else 0) fun _ => false)
      0 [] = (.error (.returned (-1)), [.lock .write 7 true]) ∧
    (EntryCall.read true true 1 0).body (failing (fun _ => 0) fun c => c = .sstackCreateInode)
      0 [] = (.error (.returned (-12)), [.lock .read 7 true]) ∧
    (EntryCall.write true true 1 0).body (failing (fun _ => 0) fun c => c = .sstackCreateInode)
      0 [] = (.error (.returned (-12)), [.lock .write 7 true]) ∧
    (EntryCall.write true true 1 0).body
      (failing (fun c => if c = .putInode then -1 else 0) fun _ => false)
      0 [] = (.error (.returned (-1)), [.lock .write 7 true]) ∧
    ¬ Balanced [.lock .write 7 true] ∧ ¬ Balanced [.lock .read 7 true] := by
  refine ⟨rfl, rfl, rfl, rfl, by decide, by decide⟩

end SeamlessStack.Entry

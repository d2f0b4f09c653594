import SeamlessStack.Db.Inode

/-! `sfs_rename`: the name of the inode is changed in the database, and then memcached forgets the
old path and learns the new one. What was written before a failure stays. -/
namespace SeamlessStack.Sfs

open Lib Db Function

def pathMax : ℕ := 4096

/-- A record starts with the fixed fields of its inode, so it is taken for that inode. -/
structure Inode (R : Type) where
  num : BitVec 64
  name : Name
  rest : R
  deriving DecidableEq, Repr

/-- Memcached, where paths lead to inode numbers, and the inodes in the database. -/
structure Stores (R : Type) where
  paths : Name → Option (BitVec 64)
  inodes : Collection (Inode R)

/-- Which calls succeed. `stale` is what the pointer in `get_inode` holds first, `fill` what
`fill_inode` returns, and `flatten` the length of the flattened record, if any. -/
structure RenameOutcome (R : Type) where
  read : Bool
  lock : Bool
  get : GetOutcome
  stale : Pointer (Inode R)
  fill : Inode R → ℤ
  flatten : Inode R → Option ℕ
  update : UpdateOutcome
  removed : Bool
  stored : Bool

/-- How the call ends without returning. -/
inductive RenameFault
  | pointer (fault : Db.Fault)
  | overflow
  deriving DecidableEq, Repr

variable {R : Type}

def Inode.named (inode : Inode R) (dst : Name) : Inode R := { inode with name := dst }

namespace RenameOutcome

def getInode (o : RenameOutcome R) (s : Stores R) (num : BitVec 64) :
    Except Db.Fault (ℤ × Option (Inode R)) :=
  Db.getInode s.inodes o.get o.stale (fun inode => (o.fill inode, inode)) num

/-- The call of `put_inode`, which is an update and makes no insertion. -/
def putInode (o : RenameOutcome R) (s : Stores R) (inode : Inode R) (dst : Name) :
    ℤ × Collection (Inode R) :=
  Db.putInode s.inodes ⟨false, false, false, false, false⟩ o.update inode.num
    ((o.flatten (inode.named dst)).map fun len => (inode.named dst, len)) 1

end RenameOutcome

/-- The part of `sfs_rename` after the inode was read. -/
def renameInode (s : Stores R) (o : RenameOutcome R) (src dst : Name) (num : BitVec 64)
    (inode : Inode R) : Except RenameFault (ℤ × Stores R) :=
  if pathMax ≤ dst.length then .error .overflow
  else if (o.putInode s inode dst).1 = -1 then .ok (-1, ⟨s.paths, (o.putInode s inode dst).2⟩)
  else if o.removed = false then .ok (-1, ⟨s.paths, (o.putInode s inode dst).2⟩)
  else if o.stored = false then
    .ok (-1, ⟨update s.paths src none, (o.putInode s inode dst).2⟩)
  else
    .ok (0, ⟨update (update s.paths src none) dst (some num),
      (o.putInode s inode dst).2⟩)

def RenameOutcome.started (o : RenameOutcome R) (s : Stores R) (src : Name) : Option (BitVec 64) :=
  if o.read = false then none
  else if o.lock = false then none
  else s.paths src

def sfsRename (s : Stores R) (o : RenameOutcome R) (src dst : Name) :
    Except RenameFault (ℤ × Stores R) :=
  match o.started s src with
  | none => .ok (-1, s)
  | some num =>
    match o.getInode s num with
    | .error fault => .error (.pointer fault)
    | .ok (_, none) => .ok (-1, s)
    | .ok (ret, some inode) =>
      if ret ≠ 0 then .ok (-1, s) else renameInode s o src dst num inode

/-- The new path leads to the inode, stored under the new name, the old path leads nowhere, and an
inode that the new path led to still has a path, if it is stored. -/
structure Renamed (s s' : Stores R) (src dst : Name) (num : BitVec 64) : Prop where
  target : s'.paths dst = some num
  name : ∃ d, s'.inodes.findOne (inodeStr num) = some d ∧ d.record.name = dst
  source : s'.paths src = none
  reachable : ∀ m, s.paths dst = some m → m ≠ num →
    (∃ d, s'.inodes.findOne (inodeStr m) = some d) → ∃ path, s'.paths path = some m

/-- Both paths lead where they led, and the inode of the old one is stored as it was. -/
structure Untouched (s s' : Stores R) (src dst : Name) : Prop where
  source : s'.paths src = s.paths src
  target : s'.paths dst = s.paths dst
  inode : ∀ num, s.paths src = some num →
    s'.inodes.findOne (inodeStr num) = s.inodes.findOne (inodeStr num)

/-- The call returns 0 and has renamed the file, or returns -1 and has done nothing. -/
def EndsRight (s : Stores R) (src dst : Name) (r : Except RenameFault (ℤ × Stores R)) : Prop :=
  ∃ ret s', r = .ok (ret, s') ∧
    ((ret = 0 ∧ ∃ num, s.paths src = some num ∧ Renamed s s' src dst num) ∨
      (ret = -1 ∧ Untouched s s' src dst))

def RenameRight (s : Stores R) (o : RenameOutcome R) (src dst : Name) : Prop :=
  EndsRight s src dst (sfsRename s o src dst)

def Writes (o : RenameOutcome R) (inode : Inode R) (dst : Name) (len : ℕ) : Prop :=
  ¬ inode.num < inodeNumStart ∧ o.flatten (inode.named dst) = some len ∧ o.update.Modifies .inode

def Refused (o : RenameOutcome R) (inode : Inode R) (dst : Name) : Prop :=
  ¬ inode.num < inodeNumStart ∧ o.flatten (inode.named dst) = none

/-- When the old path cannot be removed: what was written for the inode was already there. -/
def SameRecord (s : Stores R) (o : RenameOutcome R) (dst : Name) (num : BitVec 64)
    (inode : Inode R) : Prop :=
  ∀ len, Writes o inode dst len → inode.num = num →
    ∀ d, s.inodes.findOne (inodeStr num) = some d → d = inodeDoc num (inode.named dst) len

/-- When all goes well: the inode is stored under its number or has the new name already; an inode
that loses the new path has another one. -/
structure Replaces (s : Stores R) (o : RenameOutcome R) (src dst : Name) (num : BitVec 64)
    (inode : Inode R) : Prop where
  ne : src ≠ dst
  written : ∃ d, s.inodes.findOne (inodeStr num) = some d ∧
    ((∃ len, Writes o inode dst len) ∧ inode.num = num ∨ d.record.name = dst)
  reachable : ∀ m, s.paths dst = some m → m ≠ num →
    (∃ d, s.inodes.findOne (inodeStr m) = some d) → ∃ path, path ≠ dst ∧ s.paths path = some m

/-- The inode is read without a fault, and if with success, the new path fits into the name, and the
rest fails in `flatten_inode`, or at the removal of the old path with nothing new written, or goes
through. -/
def Atomic (s : Stores R) (o : RenameOutcome R) (src dst : Name) : Prop :=
  ∀ num, o.started s src = some num →
    ∃ ret inode, o.getInode s num = .ok (ret, inode) ∧
      ∀ i, ret = 0 → inode = some i → dst.length < pathMax ∧
        (Refused o i dst ∨ (o.removed = false ∧ SameRecord s o dst num i) ∨
          (o.removed = true ∧ o.stored = true ∧ Replaces s o src dst num i))

section Put
variable {s : Stores R} {o : RenameOutcome R} {inode : Inode R} {src dst : Name}
  {num : BitVec 64}

theorem putInode_of_refused (h : Refused o inode dst) :
    o.putInode s inode dst = (-1, s.inodes) := by
  unfold RenameOutcome.putInode Db.putInode
  rw [if_neg (by decide), if_neg h.1, h.2]
  rfl

theorem putInode_cases (h : ¬ Refused o inode dst) : (o.putInode s inode dst).1 ≠ -1 ∧
    ((∃ len, Writes o inode dst len ∧ (o.putInode s inode dst).2 =
        s.inodes.findAndModify (inodeDoc inode.num (inode.named dst) len)) ∨
      ((∀ len, ¬ Writes o inode dst len) ∧ (o.putInode s inode dst).2 = s.inodes)) := by
  unfold RenameOutcome.putInode
  by_cases hnum : inode.num < inodeNumStart
  · have hput : ∀ flattened, Db.putInode s.inodes ⟨false, false, false, false, false⟩ o.update
        inode.num flattened 1 = (-einval, s.inodes) := by
      intro flattened
      unfold Db.putInode
      rw [if_neg (by decide), if_pos hnum]
    rw [hput]
    have hcode : (-einval : ℤ) ≠ -1 := by decide
    exact ⟨hcode, .inr ⟨fun len hwrites => hwrites.1 hnum, rfl⟩⟩
  cases hflat : o.flatten (inode.named dst) with
  | none => exact absurd ⟨hnum, hflat⟩ h
  | some len =>
    rw [Option.map_some, putInode_update hnum]
    by_cases hmod : o.update.Modifies .inode
    · rw [if_pos hmod]
      refine ⟨?_, .inl ⟨len, ⟨hnum, hflat, hmod⟩, rfl⟩⟩
      split_ifs <;> simp
    · rw [if_neg hmod]
      exact ⟨by simp, .inr ⟨fun len hwrites => hmod hwrites.2.2, rfl⟩⟩

theorem putInode_keeps (h : ¬ Refused o inode dst) (m : BitVec 64) :
    (∃ d, (o.putInode s inode dst).2.findOne (inodeStr m) = some d) ↔
      ∃ d, s.inodes.findOne (inodeStr m) = some d := by
  obtain ⟨-, ⟨len, -, hput⟩ | ⟨-, hput⟩⟩ := putInode_cases (s := s) h
  · rw [hput]
    exact exists_findKey_replaceFirst
  · rw [hput]

theorem putInode_same_iff (h : ¬ Refused o inode dst) :
    (o.putInode s inode dst).2.findOne (inodeStr num) = s.inodes.findOne (inodeStr num) ↔
      SameRecord s o dst num inode := by
  obtain ⟨-, ⟨len, hwrites, hput⟩ | ⟨hno, hput⟩⟩ := putInode_cases (s := s) h
  · rw [hput]
    by_cases hnum : inode.num = num
    · subst hnum
      cases hd : s.inodes.findOne (inodeStr inode.num) with
      | none =>
        rw [modify_of_none hd, hd]
        refine iff_of_true rfl ?_
        intro len' _ _ d hd'
        rw [hd] at hd'
        cases hd'
      | some d =>
        rw [findOne_modify_self hd]
        constructor
        · intro hsame len' hwrites' _ d' hd'
          have hlen : len = len' := Option.some.inj (hwrites.2.1.symm.trans hwrites'.2.1)
          rw [hd] at hd'
          rw [← hlen, Option.some.inj hsame, Option.some.inj hd']
        · intro hsame
          rw [hsame len hwrites rfl d hd]
    · refine iff_of_true ?_ fun _ _ heq => absurd heq hnum
      exact findOne_modify_of_ne hnum
  · rw [hput]
    exact iff_of_true rfl fun len hwrites => absurd hwrites (hno len)

theorem putInode_named_iff (h : ¬ Refused o inode dst) :
    (∃ d, (o.putInode s inode dst).2.findOne (inodeStr num) = some d ∧ d.record.name = dst) ↔
      ∃ d, s.inodes.findOne (inodeStr num) = some d ∧
        ((∃ len, Writes o inode dst len) ∧ inode.num = num ∨ d.record.name = dst) := by
  obtain ⟨-, ⟨len, hwrites, hput⟩ | ⟨hno, hput⟩⟩ := putInode_cases (s := s) h
  · rw [hput]
    by_cases hnum : inode.num = num
    · subst hnum
      constructor
      · intro hnamed
        obtain ⟨d', hd', -⟩ := hnamed
        obtain ⟨d, hd⟩ := exists_findKey_replaceFirst.mp ⟨d', hd'⟩
        exact ⟨d, hd, .inl ⟨⟨len, hwrites⟩, rfl⟩⟩
      · intro hstored
        obtain ⟨d, hd, -⟩ := hstored
        exact ⟨_, findOne_modify_self hd, rfl⟩
    · rw [findOne_modify_of_ne hnum]
      simp [hnum]
  · rw [hput]
    simp [hno]

end Put

section Rename
variable {s : Stores R} {o : RenameOutcome R} {inode : Inode R} {src dst : Name}
  {num : BitVec 64}

theorem Untouched.refl (s : Stores R) (src dst : Name) : Untouched s s src dst :=
  ⟨rfl, rfl, fun _ _ => rfl⟩

theorem endsRight_failed {s' : Stores R} :
    EndsRight s src dst (.ok (-1, s')) ↔ Untouched s s' src dst := by
  constructor
  · rintro ⟨ret, t, hret, ⟨hzero, -⟩ | ⟨-, h⟩⟩
    · cases hret
      cases hzero
    · cases hret
      exact h
  · intro h
    exact ⟨-1, s', rfl, .inr ⟨rfl, h⟩⟩

theorem endsRight_done {s' : Stores R} (hsrc : s.paths src = some num) :
    EndsRight s src dst (.ok (0, s')) ↔ Renamed s s' src dst num := by
  constructor
  · rintro ⟨ret, t, hret, ⟨-, num', hnum', h⟩ | ⟨hneg, -⟩⟩
    · cases hret
      rw [hsrc] at hnum'
      cases hnum'
      exact h
    · cases hret
      cases hneg
  · intro h
    exact ⟨0, s', rfl, .inl ⟨rfl, num, hsrc, h⟩⟩

theorem untouched_iff {inodes : Collection (Inode R)} (hsrc : s.paths src = some num) :
    Untouched s ⟨s.paths, inodes⟩ src dst ↔
      inodes.findOne (inodeStr num) = s.inodes.findOne (inodeStr num) := by
  constructor
  · intro h
    exact h.inode num hsrc
  · intro h
    refine ⟨rfl, rfl, ?_⟩
    intro num' hnum'
    rw [hsrc] at hnum'
    cases hnum'
    exact h

theorem not_untouched_removed {inodes : Collection (Inode R)} (hsrc : s.paths src = some num) :
    ¬ Untouched s ⟨update s.paths src none, inodes⟩ src dst := by
  intro h
  have hgone := h.source
  rw [hsrc] at hgone
  simp at hgone

theorem renamed_iff (hsrc : s.paths src = some num) (hput : ¬ Refused o inode dst) :
    Renamed s ⟨update (update s.paths src none) dst (some num),
        (o.putInode s inode dst).2⟩ src dst num ↔ Replaces s o src dst num inode := by
  constructor
  · intro h
    have hne : src ≠ dst := by
      intro heq
      have hsource := h.source
      simp [heq] at hsource
    refine ⟨hne, (putInode_named_iff hput).mp h.name, ?_⟩
    intro m hm hmn hstored
    obtain ⟨path, hpath⟩ := h.reachable m hm hmn ((putInode_keeps hput m).mpr hstored)
    have hdst : path ≠ dst := by
      intro heq
      subst heq
      simp only [update_self, Option.some.injEq] at hpath
      exact hmn hpath.symm
    have hpsrc : path ≠ src := by
      intro heq
      subst heq
      simp only [update_of_ne hdst, update_self] at hpath
      cases hpath
    simp only [update_of_ne hdst, update_of_ne hpsrc] at hpath
    exact ⟨path, hdst, hpath⟩
  · intro h
    refine ⟨update_self _ _ _, (putInode_named_iff hput).mpr h.written, ?_, ?_⟩
    · simp [update_of_ne h.ne]
    · intro m hm hmn hstored
      obtain ⟨path, hdst, hpath⟩ := h.reachable m hm hmn ((putInode_keeps hput m).mp hstored)
      have hpsrc : path ≠ src := by
        intro heq
        rw [heq, hsrc] at hpath
        exact hmn (Option.some.inj hpath).symm
      refine ⟨path, ?_⟩
      simp only [update_of_ne hdst, update_of_ne hpsrc, hpath]

theorem renameInode_iff (hsrc : s.paths src = some num) :
    EndsRight s src dst (renameInode s o src dst num inode) ↔ dst.length < pathMax ∧
      (Refused o inode dst ∨ (o.removed = false ∧ SameRecord s o dst num inode) ∨
        (o.removed = true ∧ o.stored = true ∧ Replaces s o src dst num inode)) := by
  unfold renameInode
  by_cases hlen : pathMax ≤ dst.length
  · rw [if_pos hlen]
    refine iff_of_false ?_ fun h => absurd h.1 (by omega)
    rintro ⟨ret, s', hret, -⟩
    cases hret
  have hlt : dst.length < pathMax := by omega
  rw [if_neg hlen]
  by_cases href : Refused o inode dst
  · rw [putInode_of_refused href, if_pos rfl, endsRight_failed]
    exact iff_of_true (Untouched.refl s src dst) ⟨hlt, .inl href⟩
  rw [if_neg (putInode_cases href).1]
  by_cases hremoved : o.removed = false
  · rw [if_pos hremoved, endsRight_failed, untouched_iff hsrc, putInode_same_iff href]
    simp [hlt, href, hremoved]
  rw [if_neg hremoved]
  by_cases hstored : o.stored = false
  · rw [if_pos hstored, endsRight_failed]
    refine iff_of_false (not_untouched_removed hsrc) ?_
    simp [href, hremoved, hstored]
  rw [if_neg hstored, endsRight_done hsrc, renamed_iff hsrc href]
  rw [Bool.not_eq_false] at hremoved hstored
  simp [hlt, href, hremoved, hstored]

end Rename

theorem started_eq_some {s : Stores R} {o : RenameOutcome R} {src : Name} {num : BitVec 64}
    (h : o.started s src = some num) : s.paths src = some num := by
  unfold RenameOutcome.started at h
  split_ifs at h
  exact h

/-- A rename is all or nothing exactly under the stated condition. -/
theorem sfsRename_right_iff (s : Stores R) (o : RenameOutcome R) (src dst : Name) :
    RenameRight s o src dst ↔ Atomic s o src dst := by
  unfold RenameRight sfsRename Atomic
  cases hstarted : o.started s src with
  | none =>
    refine iff_of_true (endsRight_failed.mpr (Untouched.refl s src dst)) ?_
    intro num h
    cases h
  | some num =>
    have hsrc := started_eq_some hstarted
    simp only [Option.some.injEq, forall_eq']
    cases hget : o.getInode s num with
    | error fault =>
      refine iff_of_false ?_ ?_
      · rintro ⟨ret, s', hret, -⟩
        cases hret
      · rintro ⟨ret, inode, hret, -⟩
        cases hret
    | ok result =>
      obtain ⟨ret, _ | inode⟩ := result
      · refine iff_of_true (endsRight_failed.mpr (Untouched.refl s src dst)) ⟨ret, none, rfl, ?_⟩
        rintro i - h
        cases h
      · by_cases hret : ret = 0
        · subst hret
          simp only [ne_eq, not_true_eq_false, if_false]
          rw [renameInode_iff hsrc]
          constructor
          · intro h
            refine ⟨0, some inode, rfl, ?_⟩
            rintro i - hi
            cases hi
            exact h
          · rintro ⟨ret, i, hi, h⟩
            cases hi
            exact h inode rfl rfl
        · simp only [ne_eq, hret, not_false_eq_true, if_true]
          refine iff_of_true (endsRight_failed.mpr (Untouched.refl s src dst))
            ⟨ret, some inode, rfl, ?_⟩
          intro i hzero
          exact absurd hzero hret

def oneFile : Stores Unit where
  paths path := if path = ['/', 'a'] then some 2 else none
  inodes := [inodeDoc 2 ⟨2, ['/', 'a'], ()⟩ 4272]

/-- Only the update of the database fails. -/
def updateFails : RenameOutcome Unit where
  read := true
  lock := true
  get := ⟨true, true, true⟩
  stale := .null
  fill := fun _ => 0
  flatten := fun _ => some 4272
  update := ⟨true, true, true, true, true, false⟩
  removed := true
  stored := true

/-- The update fails, 0 is returned, and the inode keeps its old name. -/
theorem sfsRename_keeps_name :
    (∃ s', sfsRename oneFile updateFails ['/', 'a'] ['/', 'b'] = .ok (0, s') ∧
      s'.inodes = oneFile.inodes) ∧
    ¬ RenameRight oneFile updateFails ['/', 'a'] ['/', 'b'] := by
  refine ⟨⟨_, rfl, rfl⟩, ?_⟩
  rintro ⟨ret, s', hret, ⟨-, num, hnum, h⟩ | ⟨hneg, -⟩⟩
  · cases hret
    cases hnum
    obtain ⟨d, hd, hname⟩ := h.name
    cases hd
    cases hname
  · cases hret
    cases hneg

end SeamlessStack.Sfs

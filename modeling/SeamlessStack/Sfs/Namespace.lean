import SeamlessStack.Sfs.Rename

/-! The calls that make, find, change and remove files. A path stands for a file below the directory
of the file system, for the file of the host with that path, for an inode number in memcached, and
by that for a record. Which file a call works on differs from call to call. -/
namespace SeamlessStack.Sfs

open Lib Db Function

def enomemCode : ℤ := -12

def sfsDir : Name := "/var/sfs".toList

def prependMntpath (path : Name) : Name := sfsDir ++ path

theorem prependMntpath_injective : Injective prependMntpath := by
  intro p q h
  exact List.append_cancel_left h

theorem prependMntpath_ne (path : Name) : prependMntpath path ≠ path := by
  intro h
  have hlen := congrArg List.length h
  rw [prependMntpath, List.length_append] at hlen
  have hpos : 0 < sfsDir.length := by decide
  omega

inductive FileKind
  | file
  | directory
  | link
  deriving DecidableEq, Repr

/-- `files` are the files of the host by their paths, without links in the directories of a
path. -/
structure Namespace (R : Type) extends Stores R where
  files : Name → Option FileKind
  inodeNumber : BitVec 64

/-- Which calls succeed: `system` is the system call on the file, `undone` the `rmdir` of
`sfs_mkdir`, `job` the allocations of a removal. `rest` is the rest of a new inode. -/
structure Outcome (R : Type) extends RenameOutcome R where
  system : Bool
  errno : ℕ+
  stat : Bool
  undone : Bool
  allocated : Bool
  rest : R
  insert : InsertOutcome
  job : Bool

/-- How a call ends without returning. -/
inductive CallFault
  | pointer (fault : Db.Fault)
  | overflow
  | freed
  | null
  | job
  deriving DecidableEq, Repr

variable {R : Type}

namespace Namespace

/-- The number starts anew, and `mongo_db_init` drops the inodes if it can. -/
def restart (s : Namespace R) (dropped : Bool) : Namespace R :=
  { s with
    inodes := if dropped then [] else s.inodes
    inodeNumber := inodeNumStart }

def getFreeInode (s : Namespace R) : Namespace R := { s with inodeNumber := s.inodeNumber + 1 }

def setFile (s : Namespace R) (name : Name) (file : Option FileKind) : Namespace R :=
  { s with files := update s.files name file }

/-- The call of `put_inode`. -/
def putInode (s : Namespace R) (o : Outcome R) (inode : Inode R) (update : ℤ) :
    ℤ × Collection (Inode R) :=
  Db.putInode s.inodes o.insert o.update inode.num
    ((o.flatten inode).map fun len => (inode, len)) update

/-- An inode with the new number is stored, and then memcached learns the path. -/
def storeNew (s : Namespace R) (o : Outcome R) (path : Name) : Except CallFault (ℤ × Namespace R) :=
  if pathMax ≤ path.length then .error .overflow
  else
    let put := s.putInode o ⟨s.inodeNumber, path, o.rest⟩ 0
    if put.1 ≠ 0 then .ok (-1, { s with inodes := put.2 })
    else if o.stored = false then .ok (-1, { s with inodes := put.2 })
    else
      .ok (0, { s with
        inodes := put.2
        paths := update s.paths path (some s.inodeNumber) })

/-- How the calls on a file begin: the inode of the path is looked up, locked and read. -/
def withInode (s : Namespace R) (o : Outcome R) (path : Name)
    (go : Inode R → Except CallFault (ℤ × Namespace R)) : Except CallFault (ℤ × Namespace R) :=
  match o.started s.toStores path with
  | none => .ok (-1, s)
  | some num =>
    match o.getInode s.toStores num with
    | .error fault => .error (.pointer fault)
    | .ok (0, some inode) => go inode
    | .ok _ => .ok (-1, s)

def sfsGetattr (s : Namespace R) (o : Outcome R) (path : Name) :
    Except CallFault (ℤ × Namespace R) :=
  if o.allocated = false then .ok (enomemCode, s)
  else if o.system = false ∨ s.files (prependMntpath path) = none then .ok (-(o.errno : ℤ), s)
  else s.withInode o path fun _ => .ok (0, s)

/-- When `stat` fails, `rmdir` is called, but with the path itself. -/
def sfsMkdir (s : Namespace R) (o : Outcome R) (path : Name) : Except CallFault (ℤ × Namespace R) :=
  if o.system = false ∨ s.files (prependMntpath path) ≠ none then .ok (-1, s)
  else
    let s := (s.setFile (prependMntpath path) (some .directory)).getFreeInode
    if pathMax ≤ path.length then .error .overflow
    else if o.stat = false then
      .ok (-1, if o.undone ∧ s.files path = some .directory then s.setFile path none else s)
    else s.storeNew o path

/-- Without memory for the inode, `unlink` gets a freed path. In the end inode 3 is read. -/
def sfsCreate (s : Namespace R) (o : Outcome R) (path : Name) :
    Except CallFault (ℤ × Namespace R) :=
  if o.system = false ∨ s.files (prependMntpath path) = some .directory then .ok (-1, s)
  else if o.allocated = false then .error .freed
  else
    let kind := (s.files (prependMntpath path)).getD .file
    match (s.setFile (prependMntpath path) (some kind)).getFreeInode.storeNew o path with
    | .error fault => .error fault
    | .ok (ret, s) =>
      if ret ≠ 0 then .ok (-1, s)
      else
        match o.getInode s.toStores 3 with
        | .error fault => .error (.pointer fault)
        | .ok _ => .ok (0, s)

def sfsSymlink (s : Namespace R) (o : Outcome R) (dst : Name) :
    Except CallFault (ℤ × Namespace R) :=
  if o.system = false ∨ s.files dst ≠ none then .ok (-1, s)
  else (s.setFile dst (some .link)).getFreeInode.storeNew o dst

def sfsLink (s : Namespace R) (o : Outcome R) (src dst : Name) :
    Except CallFault (ℤ × Namespace R) :=
  match s.files src with
  | none => .ok (-1, s)
  | some kind =>
    if kind = .directory ∨ o.system = false ∨ s.files dst ≠ none then .ok (-1, s)
    else (s.setFile dst (some kind)).getFreeInode.storeNew o dst

/-- A removal, by a system call for files of some kinds. What `realloc` returns for `job_status` is
not stored, so the status is written through a null pointer, and the job is never submitted. -/
def removePath (s : Namespace R) (o : Outcome R) (path : Name) (removable : FileKind → Bool) :
    Except CallFault (ℤ × Namespace R) :=
  match s.files path with
  | none => .ok (-1, s)
  | some kind =>
    if o.system = false ∨ removable kind = false then .ok (-1, s)
    else
      let s := s.setFile path none
      s.withInode o path fun _ => if o.job = false then .ok (-1, s) else .error .job

def sfsUnlink (s : Namespace R) (o : Outcome R) (path : Name) :
    Except CallFault (ℤ × Namespace R) :=
  s.removePath o path (· != .directory)

def sfsRmdir (s : Namespace R) (o : Outcome R) (path : Name) : Except CallFault (ℤ × Namespace R) :=
  s.removePath o path (· == .directory)

def sfsRename (s : Namespace R) (o : Outcome R) (src dst : Name) :
    Except CallFault (ℤ × Namespace R) :=
  match Sfs.sfsRename s.toStores o.toRenameOutcome src dst with
  | .error (.pointer fault) => .error (.pointer fault)
  | .error .overflow => .error .overflow
  | .ok (ret, stores) => .ok (ret, { s with toStores := stores })

/-- The inode is read, changed and stored; `failed` is the test of what `put_inode` returns. -/
def changeInode (s : Namespace R) (o : Outcome R) (path : Name) (change : R → R)
    (failed : ℤ → Bool) : Except CallFault (ℤ × Namespace R) :=
  s.withInode o path fun inode =>
    let put := s.putInode o { inode with rest := change inode.rest } 1
    .ok (if failed put.1 then -1 else 0, { s with inodes := put.2 })

def sfsChmod (s : Namespace R) (o : Outcome R) (path : Name) (change : R → R) :
    Except CallFault (ℤ × Namespace R) :=
  if o.system = false ∨ s.files (prependMntpath path) = none then .ok (-1, s)
  else s.changeInode o path change (· == -1)

def sfsChown (s : Namespace R) (o : Outcome R) (path : Name) (change : R → R) :
    Except CallFault (ℤ × Namespace R) :=
  if o.system = false ∨ s.files path = none then .ok (-1, s)
  else s.changeInode o path change (· == -1)

def sfsTruncate (s : Namespace R) (o : Outcome R) (path : Name) (change : R → R) :
    Except CallFault (ℤ × Namespace R) :=
  if o.system = false ∨ s.files path = none then .ok (-1, s)
  else s.changeInode o path change (· != 0)

def sfsFtruncate (s : Namespace R) (o : Outcome R) (path : Name) (change : R → R) :
    Except CallFault (ℤ × Namespace R) :=
  if o.system = false then .ok (-1, s) else s.changeInode o path change (· != 0)

/-- The inode is stored with the new access time, and memcached learns the path again. -/
def reopen (s : Namespace R) (o : Outcome R) (path : Name) (inode : Inode R) : ℤ × Namespace R :=
  let put := s.putInode o inode 1
  if put.1 ≠ 0 then (-1, { s with inodes := put.2 })
  else if o.stored = false then (-1, { s with inodes := put.2 })
  else
    (0, { s with
      inodes := put.2
      paths := update s.paths path (some inode.num) })

/-- What memcached gives is read as a number, even a null pointer. `change` sets the access time. -/
def sfsOpen (s : Namespace R) (o : Outcome R) (path : Name) (change : R → R) :
    Except CallFault (ℤ × Namespace R) :=
  if o.system = false ∨ s.files (prependMntpath path) = none then .ok (-1, s)
  else if o.allocated = false then .ok (enomemCode, s)
  else
    match (if o.read then s.paths path else none) with
    | none => .error .null
    | some num =>
      match o.getInode s.toStores num with
      | .error fault => .error (.pointer fault)
      | .ok (0, some inode) => .ok (s.reopen o path { inode with rest := change inode.rest })
      | .ok _ => s.getFreeInode.storeNew o path

end Namespace

/-- The calls, where `change` is what the arguments make of a record. -/
inductive FileCall (R : Type)
  | getattr (path : Name)
  | mkdir (path : Name)
  | create (path : Name)
  | symlink (dst : Name)
  | link (src dst : Name)
  | unlink (path : Name)
  | rmdir (path : Name)
  | rename (src dst : Name)
  | chmod (path : Name) (change : R → R)
  | chown (path : Name) (change : R → R)
  | truncate (path : Name) (change : R → R)
  | ftruncate (path : Name) (change : R → R)
  | opened (path : Name) (change : R → R)

namespace Namespace

def call (s : Namespace R) (o : Outcome R) : FileCall R → Except CallFault (ℤ × Namespace R)
  | .getattr path => s.sfsGetattr o path
  | .mkdir path => s.sfsMkdir o path
  | .create path => s.sfsCreate o path
  | .symlink dst => s.sfsSymlink o dst
  | .link src dst => s.sfsLink o src dst
  | .unlink path => s.sfsUnlink o path
  | .rmdir path => s.sfsRmdir o path
  | .rename src dst => s.sfsRename o src dst
  | .chmod path change => s.sfsChmod o path change
  | .chown path change => s.sfsChown o path change
  | .truncate path change => s.sfsTruncate o path change
  | .ftruncate path change => s.sfsFtruncate o path change
  | .opened path change => s.sfsOpen o path change

/-- What the calls return, and the state after them. -/
def run (s : Namespace R) : List (FileCall R × Outcome R) →
    Except CallFault (List ℤ × Namespace R)
  | [] => .ok ([], s)
  | (c, o) :: calls => do
    let (ret, s) ← s.call o c
    let (rets, s) ← s.run calls
    return (ret :: rets, s)

end Namespace

namespace FileCall

/-- The call asks the host for a file of the kind under the name. -/
inductive Made : FileCall R → Name → FileKind → Prop
  | mkdir (path : Name) : Made (.mkdir path) (prependMntpath path) .directory
  | create (path : Name) : Made (.create path) (prependMntpath path) .file
  | symlink (dst : Name) : Made (.symlink dst) dst .link
  | link {kind : FileKind} (src dst : Name) : kind ≠ .directory → Made (.link src dst) dst kind

/-- The call may ask the host to remove the name. -/
inductive Removes : FileCall R → Name → Prop
  | mkdir (path : Name) : Removes (.mkdir path) path
  | unlink (path : Name) : Removes (.unlink path) path
  | rmdir (path : Name) : Removes (.rmdir path) path

/-- The call tells memcached about the path whether or not the path was known. -/
inductive Names : FileCall R → Name → Prop
  | mkdir (path : Name) : Names (.mkdir path) path
  | create (path : Name) : Names (.create path) path
  | symlink (dst : Name) : Names (.symlink dst) dst
  | link (src dst : Name) : Names (.link src dst) dst
  | rename (src dst : Name) : Names (.rename src dst) dst

end FileCall

def FilesStep (c : FileCall R) (s s' : Namespace R) : Prop :=
  ∀ name, s'.files name = s.files name ∨
    (s.files name = none ∧ ∃ kind, c.Made name kind ∧ s'.files name = some kind) ∨
    (s'.files name = none ∧ c.Removes name)

/-- What a call does to the paths in memcached. -/
inductive PathsStep (c : FileCall R) (o : Outcome R) (s s' : Namespace R) : Prop
  | same : s'.paths = s.paths → PathsStep c o s s'
  | forgot (path : Name) : s'.paths = update s.paths path none → PathsStep c o s s'
  | new (path : Name) : c.Names path ∨ s.paths path ≠ none →
    s'.inodeNumber = s.inodeNumber + 1 →
    s'.paths = update s.paths path (some (s.inodeNumber + 1)) → PathsStep c o s s'
  | moved (src dst : Name) (num : BitVec 64) : c = .rename src dst → s.paths src = some num →
    s'.paths = update (update s.paths src none) dst (some num) →
    PathsStep c o s s'
  | again (path : Name) (num : BitVec 64) (inode : Inode R) : s.paths path = some num →
    o.getInode s.toStores num = .ok (0, some inode) →
    s'.paths = update s.paths path (some inode.num) → PathsStep c o s s'

/-- What a call that returns can do. -/
structure Step (c : FileCall R) (o : Outcome R) (s s' : Namespace R) : Prop where
  files : FilesStep c s s'
  inodes : ∀ d ∈ s'.inodes, d ∈ s.inodes ∨ d.recordNum = inodeStr d.record.num
  number : s'.inodeNumber = s.inodeNumber ∨ s'.inodeNumber = s.inodeNumber + 1
  paths : PathsStep c o s s'

section Steps
variable {s s₁ s' : Namespace R} {c : FileCall R} {o : Outcome R} {path : Name} {ret : ℤ}

theorem FilesStep.of_eq (h : s'.files = s.files) : FilesStep c s s' := by
  intro name
  exact .inl (congrFun h name)

theorem FilesStep.setFile {name : Name} {kind : FileKind} (hnone : s.files name = none)
    (hc : c.Made name kind) : FilesStep c s (s.setFile name (some kind)) := by
  intro other
  by_cases hname : other = name
  · subst hname
    exact .inr (.inl ⟨hnone, kind, hc, update_self _ _ _⟩)
  · exact .inl (update_of_ne hname _ _)

theorem FilesStep.removeFile {name : Name} (h : FilesStep c s s₁) (hc : c.Removes name) :
    FilesStep c s (s₁.setFile name none) := by
  intro other
  by_cases hname : other = name
  · subst hname
    exact .inr (.inr ⟨update_self _ _ _, hc⟩)
  · have hother : (s₁.setFile name none).files other = s₁.files other :=
      update_of_ne hname _ _
    rw [hother]
    exact h other

theorem Step.refl (c : FileCall R) (o : Outcome R) (s : Namespace R) : Step c o s s where
  files := .of_eq rfl
  inodes _ hd := .inl hd
  number := .inl rfl
  paths := .same rfl

theorem mem_mongoDbInsert {ρ : Type} {inodes : Collection ρ} {oi : InsertOutcome} {type : DbType}
    {key : Name} {data : ρ} {len : ℕ} {d : Document ρ}
    (hd : d ∈ (mongoDbInsert inodes oi type key data len).2) :
    d ∈ inodes ∨ d = ⟨key, BitVec.ofNat 32 len, data⟩ := by
  obtain h | ⟨ret, -, h⟩ := mongoDbInsert_cases inodes oi type key data len
  · rwa [h, List.mem_append, List.mem_singleton] at hd
  · rw [h] at hd
    exact .inl hd

theorem mem_mongoDbUpdate {ρ : Type} {inodes : Collection ρ} {ou : UpdateOutcome} {type : DbType}
    {key : Name} {data : ρ} {len : ℕ} {d : Document ρ}
    (hd : d ∈ (mongoDbUpdate inodes ou type key data len).2) :
    d ∈ inodes ∨ d = ⟨key, BitVec.ofNat 32 len, data⟩ := by
  rw [mongoDbUpdate_eq] at hd
  split at hd
  · exact (mem_of_mem_replaceFirst hd).symm
  · exact .inl hd

/-- A call of `put_inode` stores an inode under its own number. -/
theorem mem_putInode {inodes : Collection (Inode R)} {oi : InsertOutcome} {ou : UpdateOutcome}
    (inode : Inode R) {len : Option ℕ} {update : ℤ} {d : Document (Inode R)}
    (hd : d ∈ (Db.putInode inodes oi ou inode.num (len.map fun len => (inode, len)) update).2) :
    d ∈ inodes ∨ d.recordNum = inodeStr d.record.num := by
  have hdoc : ∀ n : ℕ, d = inodeDoc inode.num inode n → d.recordNum = inodeStr d.record.num := by
    rintro n rfl
    rfl
  unfold Db.putInode at hd
  split at hd
  · exact .inl hd
  split at hd
  · exact .inl hd
  cases len with
  | none => exact .inl hd
  | some len =>
    simp only [Option.map_some] at hd
    split at hd
    · exact (mem_mongoDbInsert hd).imp id (hdoc len)
    · exact (mem_mongoDbUpdate hd).imp id (hdoc len)

theorem withInode_eq_ok {go : Inode R → Except CallFault (ℤ × Namespace R)}
    (h : s.withInode o path go = .ok (ret, s')) :
    (ret = -1 ∧ s' = s) ∨ ∃ num inode, s.paths path = some num ∧
      o.getInode s.toStores num = .ok (0, some inode) ∧ go inode = .ok (ret, s') := by
  unfold Namespace.withInode at h
  split at h
  · cases h
    exact .inl ⟨rfl, rfl⟩
  · rename_i num hstarted
    split at h
    · cases h
    · rename_i inode hget
      exact .inr ⟨num, inode, started_eq_some hstarted, hget, h⟩
    · cases h
      exact .inl ⟨rfl, rfl⟩

theorem storeNew_cases (h : s.storeNew o path = .ok (ret, s')) :
    s'.inodes = (s.putInode o ⟨s.inodeNumber, path, o.rest⟩ 0).2 ∧ s'.files = s.files ∧
      s'.inodeNumber = s.inodeNumber ∧ ((ret = -1 ∧ s'.paths = s.paths) ∨
        (ret = 0 ∧ (s.putInode o ⟨s.inodeNumber, path, o.rest⟩ 0).1 = 0 ∧
          s'.paths = update s.paths path (some s.inodeNumber))) := by
  unfold Namespace.storeNew at h
  simp only [ne_eq, ite_not] at h
  split_ifs at h with hlen hput
  · cases h
    exact ⟨rfl, rfl, rfl, .inl ⟨rfl, rfl⟩⟩
  · cases h
    exact ⟨rfl, rfl, rfl, .inr ⟨rfl, hput, rfl⟩⟩
  · cases h
    exact ⟨rfl, rfl, rfl, .inl ⟨rfl, rfl⟩⟩

theorem step_storeNew (hfiles : FilesStep c s s₁) (hstores : s₁.toStores = s.toStores)
    (hnumber : s₁.inodeNumber = s.inodeNumber) (hnames : c.Names path ∨ s.paths path ≠ none)
    (h : s₁.getFreeInode.storeNew o path = .ok (ret, s')) : Step c o s s' := by
  obtain ⟨hinodes, hsame, hnum, hpaths⟩ := storeNew_cases h
  have hfree : s₁.getFreeInode.inodeNumber = s.inodeNumber + 1 := by
    rw [← hnumber]
    rfl
  refine ⟨?_, ?_, .inr (hnum.trans hfree), ?_⟩
  · intro name
    rw [hsame]
    exact hfiles name
  · intro d hd
    rw [hinodes] at hd
    have hmem := mem_putInode _ hd
    rwa [show s₁.getFreeInode.inodes = s.inodes from congrArg Stores.inodes hstores] at hmem
  · have hold : s₁.getFreeInode.paths = s.paths := congrArg Stores.paths hstores
    rw [hold, hfree] at hpaths
    obtain ⟨-, hkept⟩ | ⟨-, -, hnew⟩ := hpaths
    · exact .same hkept
    · exact .new path hnames (hnum.trans hfree) hnew

theorem step_changeInode {change : R → R} {failed : ℤ → Bool}
    (h : s.changeInode o path change failed = .ok (ret, s')) : Step c o s s' := by
  obtain ⟨-, rfl⟩ | ⟨num, inode, -, -, hgo⟩ := withInode_eq_ok h
  · exact .refl c o s'
  · cases hgo
    exact ⟨.of_eq rfl, fun _ hd => mem_putInode _ hd, .inl rfl, .same rfl⟩

/-- A removal that returns has failed, and took at most the file of the host. -/
theorem removePath_cases {removable : FileKind → Bool}
    (h : s.removePath o path removable = .ok (ret, s')) :
    ret = -1 ∧ (s' = s ∨ s' = s.setFile path none ∧
      ∃ kind, s.files path = some kind ∧ removable kind = true) := by
  unfold Namespace.removePath at h
  split at h
  · cases h
    exact ⟨rfl, .inl rfl⟩
  rename_i kind hkind
  split at h
  · cases h
    exact ⟨rfl, .inl rfl⟩
  rename_i hfails
  rw [not_or, Bool.not_eq_false, Bool.not_eq_false] at hfails
  have hthere : ∃ kind, s.files path = some kind ∧ removable kind = true := ⟨kind, hkind, hfails.2⟩
  obtain ⟨hret, rfl⟩ | ⟨num, inode, -, -, hgo⟩ := withInode_eq_ok h
  · exact ⟨hret, .inr ⟨rfl, hthere⟩⟩
  · split_ifs at hgo
    cases hgo
    exact ⟨rfl, .inr ⟨rfl, hthere⟩⟩

theorem step_removePath {removable : FileKind → Bool} (hc : c.Removes path)
    (h : s.removePath o path removable = .ok (ret, s')) : Step c o s s' := by
  obtain ⟨-, rfl | ⟨rfl, -⟩⟩ := removePath_cases h
  · exact .refl c o s'
  · exact ⟨.removeFile (.of_eq rfl) hc, fun _ hd => .inl hd, .inl rfl, .same rfl⟩

theorem rename_cases {src dst : Name} (h : s.sfsRename o src dst = .ok (ret, s')) :
    (ret = -1 ∧ s' = s) ∨ ∃ num inode, s.paths src = some num ∧
      s'.inodes = (o.putInode s.toStores inode dst).2 ∧ s'.files = s.files ∧
      s'.inodeNumber = s.inodeNumber ∧
      ((ret = -1 ∧ s'.paths = s.paths) ∨
        (ret = -1 ∧ s'.paths = update s.paths src none) ∨
        (ret = 0 ∧
          s'.paths = update (update s.paths src none) dst (some num))) := by
  unfold Namespace.sfsRename at h
  split at h
  · cases h
  · cases h
  rename_i ret' stores hrename
  cases h
  unfold Sfs.sfsRename at hrename
  split at hrename
  · cases hrename
    exact .inl ⟨rfl, rfl⟩
  rename_i num hstarted
  split at hrename
  · cases hrename
  · cases hrename
    exact .inl ⟨rfl, rfl⟩
  rename_i ret'' inode hget
  split at hrename
  · cases hrename
    exact .inl ⟨rfl, rfl⟩
  refine .inr ⟨num, inode, started_eq_some hstarted, ?_⟩
  unfold renameInode at hrename
  split_ifs at hrename
  · cases hrename
    exact ⟨rfl, rfl, rfl, .inl ⟨rfl, rfl⟩⟩
  · cases hrename
    exact ⟨rfl, rfl, rfl, .inl ⟨rfl, rfl⟩⟩
  · cases hrename
    exact ⟨rfl, rfl, rfl, .inr (.inl ⟨rfl, rfl⟩)⟩
  · cases hrename
    exact ⟨rfl, rfl, rfl, .inr (.inr ⟨rfl, rfl⟩)⟩

theorem step_rename {src dst : Name} (h : s.sfsRename o src dst = .ok (ret, s')) :
    Step (.rename src dst) o s s' := by
  obtain ⟨-, rfl⟩ | ⟨num, inode, hsrc, hinodes, hfiles, hnum, hpaths⟩ := rename_cases h
  · exact .refl _ o s'
  refine ⟨.of_eq hfiles, ?_, .inl hnum, ?_⟩
  · intro d hd
    rw [hinodes] at hd
    exact mem_putInode (inode.named dst) hd
  · obtain ⟨-, hsame⟩ | ⟨-, hforgot⟩ | ⟨-, hmoved⟩ := hpaths
    · exact .same hsame
    · exact .forgot src hforgot
    · exact .moved src dst num rfl hsrc hmoved

theorem step_mkdir (h : s.sfsMkdir o path = .ok (ret, s')) : Step (.mkdir path) o s s' := by
  unfold Namespace.sfsMkdir at h
  split at h
  · cases h
    exact .refl _ o s
  rename_i hok
  rw [not_or, not_not] at hok
  have hfiles : FilesStep (.mkdir path) s (s.setFile (prependMntpath path) (some .directory)) :=
    .setFile hok.2 (.mkdir path)
  split at h
  · cases h
  split at h
  · cases h
    -- the number is used up, and the directory of the host may be gone
    have hfree : FilesStep (.mkdir path) s
        (s.setFile (prependMntpath path) (some .directory)).getFreeInode := hfiles
    refine ⟨?_, ?_, .inr ?_, .same ?_⟩
    · split
      · exact hfree.removeFile (.mkdir path)
      · exact hfree
    · split <;> exact fun _ hd => .inl hd
    · split <;> rfl
    · split <;> rfl
  · exact step_storeNew hfiles rfl rfl (.inl (.mkdir path)) h

theorem step_create (h : s.sfsCreate o path = .ok (ret, s')) : Step (.create path) o s s' := by
  unfold Namespace.sfsCreate at h
  split at h
  · cases h
    exact .refl _ o s
  split at h
  · cases h
  dsimp only at h
  split at h
  · cases h
  rename_i ret' t hstore
  have hfiles : FilesStep (.create path) s (s.setFile (prependMntpath path)
      (some ((s.files (prependMntpath path)).getD .file))) := by
    cases hfile : s.files (prependMntpath path) with
    | none => exact .setFile hfile (.create path)
    | some kind =>
      -- the file is there already
      refine .of_eq ?_
      rw [Option.getD_some, ← hfile]
      exact update_eq_self _ _
  have hstep : Step (.create path) o s t := step_storeNew hfiles rfl rfl (.inl (.create path))
    hstore
  split at h
  · cases h
    exact hstep
  split at h
  · cases h
  · cases h
    exact hstep

theorem step_open {change : R → R} (h : s.sfsOpen o path change = .ok (ret, s')) :
    Step (.opened path change) o s s' := by
  unfold Namespace.sfsOpen at h
  split at h
  · cases h
    exact .refl _ o s
  split at h
  · cases h
    exact .refl _ o s
  split at h
  · cases h
  rename_i num hread
  have hpath : s.paths path = some num := by
    split at hread
    · exact hread
    · cases hread
  split at h
  · cases h
  · rename_i inode hget
    unfold Namespace.reopen at h
    simp only [ne_eq, ite_not] at h
    split_ifs at h
    · cases h
      exact ⟨.of_eq rfl, fun _ hd => mem_putInode _ hd, .inl rfl, .same rfl⟩
    · cases h
      exact ⟨.of_eq rfl, fun _ hd => mem_putInode _ hd, .inl rfl,
        .again path num inode hpath hget rfl⟩
    · cases h
      exact ⟨.of_eq rfl, fun _ hd => mem_putInode _ hd, .inl rfl, .same rfl⟩
  · refine step_storeNew (.of_eq rfl) rfl rfl (.inr ?_) h
    rw [hpath]
    exact Option.some_ne_none num

theorem step_symlink {dst : Name} (h : s.sfsSymlink o dst = .ok (ret, s')) :
    Step (.symlink dst) o s s' := by
  unfold Namespace.sfsSymlink at h
  split at h
  · cases h
    exact .refl _ o s
  · rename_i hok
    rw [not_or, not_not] at hok
    exact step_storeNew (.setFile hok.2 (.symlink dst)) rfl rfl (.inl (.symlink dst)) h

theorem step_link {src dst : Name} (h : s.sfsLink o src dst = .ok (ret, s')) :
    Step (.link src dst) o s s' := by
  unfold Namespace.sfsLink at h
  split at h
  · cases h
    exact .refl _ o s
  split at h
  · cases h
    exact .refl _ o s
  · rename_i hok
    rw [not_or, not_or, not_not] at hok
    exact step_storeNew (.setFile hok.2.2 (.link src dst hok.1)) rfl rfl (.inl (.link src dst)) h

theorem step_getattr (h : s.sfsGetattr o path = .ok (ret, s')) : Step (.getattr path) o s s' := by
  unfold Namespace.sfsGetattr at h
  split at h
  · cases h
    exact .refl _ o s
  split at h
  · cases h
    exact .refl _ o s
  obtain ⟨-, rfl⟩ | ⟨num, inode, -, -, hgo⟩ := withInode_eq_ok h
  · exact .refl _ o s'
  · cases hgo
    exact .refl _ o s

theorem step_guarded {p : Prop} [Decidable p] {change : R → R} {failed : ℤ → Bool}
    (h : (if p then .ok (-1, s) else s.changeInode o path change failed) = .ok (ret, s')) :
    Step c o s s' := by
  split at h
  · cases h
    exact .refl c o s
  · exact step_changeInode h

theorem call_step (h : s.call o c = .ok (ret, s')) : Step c o s s' := by
  cases c with
  | getattr path => exact step_getattr h
  | mkdir path => exact step_mkdir h
  | create path => exact step_create h
  | symlink dst => exact step_symlink h
  | link src dst => exact step_link h
  | unlink path => exact step_removePath (.unlink path) h
  | rmdir path => exact step_removePath (.rmdir path) h
  | rename src dst => exact step_rename h
  | chmod path change | chown path change | truncate path change | ftruncate path change =>
    exact step_guarded h
  | opened path change => exact step_open h

end Steps

end SeamlessStack.Sfs

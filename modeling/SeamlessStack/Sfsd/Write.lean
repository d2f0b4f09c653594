import SeamlessStack.Lib.Runs
import SeamlessStack.Log
import SeamlessStack.Sfsd.Chunk

/-! `sstack_write` for requests that create a new extent: the data goes to a new file on the
scheduled chunk, and the inode is stored with one extent more. -/
namespace SeamlessStack.Sfsd

open Lib Function

/-- `locked` is the state of `i_lock`, one of the fixed fields that are stored. -/
structure Inode where
  locked : Bool
  size : BitVec 64
  numreplicas : ℤ
  extents : List Extent
  deriving DecidableEq, Repr

abbrev Db := ℕ → Option Inode

/-- `blocks`: `pthread_mutex_lock` waits on a copy of a locked mutex, which POSIX leaves open; `ctx`
is the level of the messages. -/
structure Host where
  chunks : List Storage
  blocks : Bool
  ctx : ℕ
  deriving DecidableEq, Repr

/-- What `get_inode` does: it may find no record, or run out of memory behind the fixed
fields. -/
inductive GetResult
  | found
  | missing
  | nomem
  deriving DecidableEq, Repr

/-- The command, and what the functions that `sstack_write` calls return. -/
structure WriteRequest where
  inodeNo : ℕ
  nameLen : ℕ
  offset : ℤ
  dataLen : BitVec 64
  hasData : Bool
  /-- Size and presence of the output of the plugins, if there are any. -/
  policy : Option (BitVec 64 × Bool)
  inodeCache : Bool
  getInode : GetResult
  /-- What the scheduler gives, `none` for a negative number. -/
  schedule : Option ℕ
  time : ℕ
  created : Bool
  /-- The `errno` of a failed `open` or `write`. -/
  reopened : Except ℕ Unit
  wrote : Except ℕ ℕ
  crc : BitVec 32
  realloc : Bool
  malloc : Bool
  put : Bool
  reread : GetResult

/-- `NULL` is returned with the inode in memory, or the request waits for `i_lock`, or is
undefined. -/
inductive Stop
  | failed (memory : Option Inode)
  | waits
  | undefined
  deriving DecidableEq, Repr

/-- A request that returned its payload, with the inode as it was read again. -/
structure Written where
  fileWc : ℤ
  db : Db
  memory : Inode

def emptyInode : Inode := ⟨false, 0, 0, []⟩

/-- The inode in memory after `get_inode`. -/
def readInode (db : Db) (n : ℕ) : GetResult → Inode
  | .found => (db n).getD emptyInode
  | .missing => emptyInode
  | .nomem => { (db n).getD emptyInode with extents := [] }

def fileTail (time : ℕ) : Name :=
  Nat.toDigits 10 (time % 2 ^ 32) ++ ['-', 'X', 'X', 'X', 'X', 'X', 'X']

def extentName (storage : Storage) (time : ℕ) : Name := storage.mountPoint ++ '/' :: fileTail time

def basename (name : Name) : Name := (name.reverse.takeWhile (· ≠ '/')).reverse

def handleName (storage : Storage) (time : ℕ) : Name :=
  storage.path ++ '/' :: basename (extentName storage time)

/-- The status, and whether the checksum was set. A failure is reported by the positive
`errno`. -/
def writeUpdateExtent (buffer : Bool) (opened : Except ℕ Unit) (wrote : Except ℕ ℕ) : ℤ × Bool :=
  if buffer = false then (0, false)
  else match opened, wrote with
  | .error errno, _ => (errno, false)
  | .ok (), .error errno => (errno, false)
  | .ok (), .ok nbytes => (nbytes, true)

/-- There is no previous extent if `i_size` lies, and the name may not fit into the handle. -/
def newExtent (storage : Storage) (inode : Inode) (r : WriteRequest) (outSize : BitVec 64)
    (cksum : BitVec 32) : Option Extent :=
  let file := extentName storage r.time
  let name := handleName storage r.time
  if r.malloc = false ∨ pathMax ≤ name.length then none
  else if inode.size ≠ 0 then match inode.extents.getLast? with
    | some prev => some
        ⟨prev.offset + prev.size, r.dataLen, outSize, cksum, 1,
          ⟨file.length, name, prev.path.proto, prev.path.address⟩⟩
    | none => none
  else some
    ⟨0, r.dataLen, outSize, cksum, 1, ⟨file.length, name, storage.protocol, storage.address⟩⟩

def Inode.updateSize (inode : Inode) : Inode :=
  { inode with size := inode.extents.foldl (fun size e => size + e.size) 0 }

/-- The inode with its new extent. A message has `i_size` for the argument of its `%s`. -/
def addExtent (h : Host) (storage : Storage) (inode : Inode) (r : WriteRequest)
    (outSize : BitVec 64) (cksum : BitVec 32) : Except Stop Inode :=
  if inode.locked ∧ h.blocks then .error .waits
  else if r.realloc = false ∨ 2 ^ 31 ≤ inode.extents.length + 1 then
    .error (.failed (some { inode with locked := true }))
  else if Log.sfsDebug ≤ h.ctx ∧ inode.size ≠ 0 then .error .undefined
  else match newExtent storage inode r outSize cksum with
    | some e => .ok { inode with locked := true, extents := inode.extents ++ [e] }
    | none => .error .undefined

/-- Nothing is in the way of a new extent behind `pthread_mutex_lock`. -/
def Fits (h : Host) (storage : Storage) (inode : Inode) (r : WriteRequest) : Prop :=
  r.realloc = true ∧ inode.extents.length + 1 < 2 ^ 31 ∧
    (Log.sfsDebug ≤ h.ctx → inode.size = 0) ∧ r.malloc = true ∧
    (handleName storage r.time).length < pathMax ∧ (inode.size ≠ 0 → inode.extents ≠ [])

def putInode (db : Db) (r : WriteRequest) (inode : Inode) : Db :=
  if r.put then update db r.inodeNo (some inode) else db

/-- The chunk that the scheduler names, on which the file of the extent is created. -/
def createFile (h : Host) (r : WriteRequest) (inode : Inode) : Except Stop (Option Storage) :=
  match r.schedule with
  | none => .ok none
  | some c => match h.chunks[c]? with
    | none => .error .undefined
    | some storage => if r.created then .ok (some storage) else .error (.failed (some inode))

def WriteRequest.out (r : WriteRequest) : BitVec 64 × Bool := r.policy.getD (r.dataLen, r.hasData)

def WriteRequest.stat (r : WriteRequest) : ℤ × Bool :=
  writeUpdateExtent r.out.2 r.reopened r.wrote

/-- The inode as it is stored, with its new extent if a file was created. -/
def updateInode (h : Host) (r : WriteRequest) (inode : Inode) :
    Option Storage → Except Stop Inode
  | none => .ok inode.updateSize
  | some storage => do
    let inode ← addExtent h storage inode r r.out.1 (if r.stat.2 then r.crc else 0)
    return inode.updateSize

/-- A search for an existing extent is made with an array that was never filled, and a write behind
the start of an extent goes through such pointers. -/
def sstackWrite (h : Host) (db : Db) (r : WriteRequest) : Except Stop Written := do
  require (r.inodeCache = true) (.failed none)
  require (db r.inodeNo ≠ none ∧ r.getInode = .found)
    (.failed (some (readInode db r.inodeNo r.getInode)))
  let inode := readInode db r.inodeNo .found
  require (r.nameLen = 0) .undefined
  let storage ← createFile h r inode
  require (r.offset = 0) .undefined
  require (0 ≤ r.stat.1) (.failed (some inode))
  let inode ← updateInode h r { inode with numreplicas := 1 } storage
  let db := putInode db r inode
  return ⟨r.stat.1, db, readInode db r.inodeNo r.reread⟩

theorem stat_nonneg (r : WriteRequest) : 0 ≤ r.stat.1 := by
  unfold WriteRequest.stat writeUpdateExtent
  split
  · exact le_refl 0
  · split <;> exact Int.natCast_nonneg _

variable {h : Host} {r : WriteRequest} {inode : Inode}

theorem createFile_eq_ok {storage : Option Storage} :
    createFile h r inode = .ok storage ↔ r.schedule = none ∧ storage = none ∨
      ∃ c chunk, r.schedule = some c ∧ h.chunks[c]? = some chunk ∧ r.created = true ∧
        storage = some chunk := by
  unfold createFile
  split
  · rename_i hnone
    constructor
    · intro hok
      exact Or.inl ⟨hnone, (Except.ok.inj hok).symm⟩
    · rintro (⟨-, rfl⟩ | ⟨c, chunk, hc, -⟩)
      · rfl
      · rw [hnone] at hc
        cases hc
  · rename_i c hc
    split
    · rename_i hchunk
      simp [hc, hchunk]
    · rename_i chunk hchunk
      split
      · rename_i hcreated
        simp [hc, hchunk, hcreated, eq_comm]
      · rename_i hcreated
        simp [hc, hcreated]

theorem newExtent_eq_some {storage : Storage} {outSize : BitVec 64} {cksum : BitVec 32} :
    (∃ e, newExtent storage inode r outSize cksum = some e) ↔
      r.malloc = true ∧ (handleName storage r.time).length < pathMax ∧
        (inode.size ≠ 0 → inode.extents ≠ []) := by
  unfold newExtent
  dsimp only
  split
  · rename_i hbad
    refine iff_of_false (by simp) ?_
    rintro ⟨hmalloc, hlt, -⟩
    obtain hbad | hbad := hbad
    · rw [hbad] at hmalloc
      cases hmalloc
    · omega
  · rename_i hgood
    rw [not_or, Bool.not_eq_false] at hgood
    have hlt : (handleName storage r.time).length < pathMax := by omega
    split
    · rename_i hsize
      cases hlast : inode.extents.getLast? with
      | none =>
        rw [List.getLast?_eq_none_iff] at hlast
        refine iff_of_false (by simp) ?_
        rintro ⟨-, -, hne⟩
        exact hne hsize hlast
      | some prev =>
        have hne : inode.extents ≠ [] := by
          intro hnil
          rw [hnil] at hlast
          cases hlast
        exact iff_of_true ⟨_, rfl⟩ ⟨hgood.1, hlt, fun _ => hne⟩
    · rename_i hsize
      exact iff_of_true ⟨_, rfl⟩ ⟨hgood.1, hlt, fun hne => absurd hne hsize⟩

theorem addExtent_eq_ok {storage : Storage} {inode' : Inode} {outSize : BitVec 64}
    {cksum : BitVec 32} :
    addExtent h storage inode r outSize cksum = .ok inode' ↔
      ¬ (inode.locked = true ∧ h.blocks = true) ∧
        (r.realloc = true ∧ inode.extents.length + 1 < 2 ^ 31) ∧
        (Log.sfsDebug ≤ h.ctx → inode.size = 0) ∧
        ∃ e, newExtent storage inode r outSize cksum = some e ∧
          inode' = { inode with locked := true, extents := inode.extents ++ [e] } := by
  unfold addExtent
  split
  · rename_i hwait
    simp [hwait]
  · rename_i hwait
    split
    · rename_i hfail
      refine iff_of_false (by simp) ?_
      rintro ⟨-, ⟨hrealloc, hlt⟩, -⟩
      obtain hfail | hfail := hfail
      · rw [hfail] at hrealloc
        cases hrealloc
      · omega
    · rename_i hfail
      have hroom : r.realloc = true ∧ inode.extents.length + 1 < 2 ^ 31 := by
        rw [not_or, Bool.not_eq_false] at hfail
        exact ⟨hfail.1, by omega⟩
      by_cases hlog : Log.sfsDebug ≤ h.ctx ∧ inode.size ≠ 0
      · rw [if_pos hlog]
        exact iff_of_false (by simp) fun hright => hlog.2 (hright.2.2.1 hlog.1)
      rw [if_neg hlog]
      rw [not_and, not_not] at hlog
      cases hnew : newExtent storage inode r outSize cksum with
      | none => simp
      | some e =>
        simp only [Except.ok.injEq, Option.some.injEq]
        constructor
        · intro heq
          exact ⟨hwait, hroom, hlog, e, rfl, heq.symm⟩
        · rintro ⟨-, -, -, -, rfl, rfl⟩
          rfl

/-- What a request that returned its payload has done. -/
theorem sstackWrite_eq_ok {db : Db} {w : Written}
    (hw : sstackWrite h db r = .ok w) : ∃ inode inode', db r.inodeNo = some inode ∧
      w.db = putInode db r inode'.updateSize ∧
      (r.schedule = none ∧ inode' = { inode with numreplicas := 1 } ∨
        ∃ c storage outSize cksum e, r.schedule = some c ∧ h.chunks[c]? = some storage ∧
          newExtent storage { inode with numreplicas := 1 } r outSize cksum = some e ∧
          inode' = ⟨true, inode.size, 1, inode.extents ++ [e]⟩) := by
  unfold sstackWrite at hw
  obtain ⟨-, -, hw⟩ := bind_eq_ok.mp hw
  obtain ⟨_, hfound, hw⟩ := bind_eq_ok.mp hw
  obtain ⟨-, -, hw⟩ := bind_eq_ok.mp hw
  obtain ⟨storage, hstorage, hw⟩ := bind_eq_ok.mp hw
  obtain ⟨-, -, hw⟩ := bind_eq_ok.mp hw
  obtain ⟨-, -, hw⟩ := bind_eq_ok.mp hw
  obtain ⟨stored, hstored, hw⟩ := bind_eq_ok.mp hw
  obtain ⟨inode, hinode⟩ := Option.ne_none_iff_exists'.mp (require_eq_ok.mp hfound).1
  have hread : readInode db r.inodeNo .found = inode := by
    unfold readInode
    rw [hinode]
    rfl
  rw [hread] at hstored hstorage
  obtain rfl := Except.ok.inj hw
  obtain ⟨hnone, rfl⟩ | ⟨c, chunk, hc, hchunk, -, rfl⟩ := createFile_eq_ok.mp hstorage
  · obtain rfl := Except.ok.inj hstored
    exact ⟨inode, _, hinode, rfl, Or.inl ⟨hnone, rfl⟩⟩
  · obtain ⟨inode', hadd, hstored⟩ := bind_eq_ok.mp hstored
    obtain rfl := Except.ok.inj hstored
    obtain ⟨-, -, -, e, hnew, rfl⟩ := addExtent_eq_ok.mp hadd
    exact ⟨inode, _, hinode, rfl, Or.inr ⟨c, chunk, _, _, e, hc, hchunk, hnew, rfl⟩⟩

/-- The database, and for every inode the local files that were created for its extents. -/
structure WriteUse where
  db : Db
  files : ℕ → List Name

/-- The files of the extents once the request has stored its inode. -/
def recordFile (h : Host) (files : ℕ → List Name) (r : WriteRequest) : ℕ → List Name :=
  match r.schedule.bind (h.chunks[·]?) with
  | some storage =>
    if r.put then
      update files r.inodeNo (files r.inodeNo ++ [extentName storage r.time])
    else files
  | none => files

/-- Requests follow each other; one that waits or is not defined never returns. -/
def writeStep (h : Host) (s : WriteUse) (r : WriteRequest) : Option WriteUse :=
  match sstackWrite h s.db r with
  | .ok w => some ⟨w.db, recordFile h s.files r⟩
  | .error (.failed _) => some s
  | .error _ => none

/-- The inodes start without extents, and with `i_lock` unlocked. -/
def writeSystem (h : Host) : System WriteUse WriteRequest where
  init s := (∀ n inode, s.db n = some inode →
    inode.extents = [] ∧ inode.size = 0 ∧ inode.locked = false) ∧ s.files = fun _ => []
  step := writeStep h

/-- A step stores nothing, or one inode again, with a new extent or without. -/
theorem writeStep_cases {s t : WriteUse} (ht : writeStep h s r = some t) :
    t = s ∨ ∃ inode, s.db r.inodeNo = some inode ∧
      (t = ⟨update s.db r.inodeNo
            (some (Inode.updateSize ⟨inode.locked, inode.size, 1, inode.extents⟩)), s.files⟩ ∨
        ∃ c storage outSize cksum e, r.schedule = some c ∧ h.chunks[c]? = some storage ∧
          newExtent storage { inode with numreplicas := 1 } r outSize cksum = some e ∧
          t = ⟨update s.db r.inodeNo
              (some (Inode.updateSize ⟨true, inode.size, 1, inode.extents ++ [e]⟩)),
            update s.files r.inodeNo
              (s.files r.inodeNo ++ [extentName storage r.time])⟩) := by
  unfold writeStep at ht
  split at ht
  · rename_i w hw
    obtain rfl := Option.some.inj ht
    obtain ⟨inode, inode', hinode, hdb, hcase⟩ := sstackWrite_eq_ok hw
    rw [hdb]
    unfold putInode recordFile
    obtain ⟨hnone, rfl⟩ | ⟨c, storage, outSize, cksum, e, hc, hchunk, hnew, rfl⟩ := hcase
    · rw [hnone]
      split
      · exact Or.inr ⟨inode, hinode, Or.inl rfl⟩
      · exact Or.inl rfl
    · have hbind : (r.schedule.bind fun c => h.chunks[c]?) = some storage := by
        rw [hc, Option.bind_some, hchunk]
      rw [hbind]
      dsimp only
      split
      · exact Or.inr ⟨inode, hinode, Or.inr ⟨c, storage, outSize, cksum, e, hc, hchunk, hnew, rfl⟩⟩
      · exact Or.inl rfl
  · exact Or.inl (Option.some.inj ht).symm
  · cases ht

def oneChunk (blocks : Bool) : Host :=
  ⟨[⟨['/', 'e'], ['/', 'm'], .nfs, ⟨.ipv4, ['a']⟩⟩], blocks, 0⟩

def emptyInodes : WriteUse :=
  ⟨fun n => if n = 2 ∨ n = 3 then some emptyInode else none, fun _ => []⟩

theorem emptyInodes_init (h : Host) : (writeSystem h).init emptyInodes := by
  refine ⟨?_, rfl⟩
  intro n inode hn
  unfold emptyInodes at hn
  dsimp only at hn
  split at hn
  · obtain rfl := Option.some.inj hn
    exact ⟨rfl, rfl, rfl⟩
  · cases hn

def goodRequest (inodeNo : ℕ) (len : BitVec 64) (chunk time : ℕ) : WriteRequest :=
  ⟨inodeNo, 0, 0, len, true, none, true, .found, some chunk, time, true, .ok (), .ok len.toNat, 7,
    true, true, true, .found⟩

end SeamlessStack.Sfsd

import SeamlessStack.Sfsd.Stored

/-! `sstack_read` of `sfsd_ops.c`. A whole extent is asked for from the offset on, and the checksum
of what came is compared with that of the whole extent; a failed `open` or `pread` is reported by
the positive `errno`, which the caller takes for a length. -/
namespace SeamlessStack.Sfsd

open Lib

abbrev Errno := Fin 4096

def einval : Errno := 22

def maxExtentSize : ℕ := 65536

/-- A local file, with what `open` and `pread` do. -/
structure LocalFile where
  opened : Except Errno Unit
  readable : Except Errno Unit
  content : Bytes

def LocalFile.pread (file : LocalFile) (count : ℕ) (offset : BitVec 64) : Except Errno Bytes :=
  if offset.toInt < 0 then .error einval
  else do
    file.readable
    return (file.content.drop offset.toNat).take count

def LocalFile.read (file : LocalFile) (count : ℕ) (offset : BitVec 64) : Except Errno Bytes := do
  file.opened
  file.pread count offset

/-- The result, and what the buffer starts with. -/
def readCheckExtent (crc : Bytes → BitVec 32) (file : LocalFile) (count : ℕ) (offset : BitVec 64)
    (checkCksum : Bool) (cksum : BitVec 32) (buffer : Bool) : ℤ × Bytes :=
  if buffer = false then (0, [])
  else match file.read count offset with
    | .error errno => (errno.val, [])
    | .ok bytes =>
      -- -SSTACK_ECKSUM
      (if checkCksum = true ∧ crc bytes ≠ cksum then -102 else bytes.length, bytes)

/-- The command, and what the functions that `sstack_read` calls return. -/
structure ReadRequest where
  inodeNo : ℕ
  handle : FileHandle
  offset : BitVec 64
  /-- What `read_erasure_code` gives, if the command asks for it. -/
  readEcode : Option ℤ
  inodeCache : Bool
  getInode : GetResult
  buffer : Bool

/-- `data_len`, which is also `count`, and what the read has put into `data_buf`. -/
structure ReadData where
  dataLen : ℤ
  data : Bytes
  deriving DecidableEq, Repr

/-- The extent that the handle finds, and the local file. -/
def findExtent (h : Host) (inode : Inode) (handle : FileHandle) : Option (Extent × Name) := do
  let (index, path) ← getExtent inode.extents (-1) handle h.chunks
  let e ← inode.extents[index]?
  return (e, path)

def readPlain (crc : Bytes → BitVec 32) (file : LocalFile) (e : Extent) (r : ReadRequest) :
    Except ℤ ReadData := do
  require (r.buffer = true) (-12)
  let (stat, data) :=
    readCheckExtent crc file maxExtentSize (r.offset - e.offset) true e.cksum r.buffer
  require (0 ≤ stat) (-61)
  return ⟨stat, data⟩

/-- What the payload comes back with, or the error status in its place. -/
def sstackRead (crc : Bytes → BitVec 32) (h : Host) (db : Db) (files : Name → LocalFile)
    (r : ReadRequest) : Except ℤ ReadData := do
  require (r.inodeCache = true) (-12)
  require (db r.inodeNo ≠ none ∧ r.getInode = .found) (-22)
  match findExtent h (readInode db r.inodeNo .found) r.handle with
  | none => .error (-22)
  | some (e, path) =>
    match r.readEcode with
    | some index => do
      require (0 ≤ index) index
      -- The status is still 0, and the data stays in the stripe.
      return ⟨0, []⟩
    | none => readPlain crc (files path) e r

def commandOk : Except ℤ ReadData → ℤ
  | .ok _ => 100
  | .error status => status

/-- The request asks for this extent, whose local file is at `path`, and not for its erasure
code. -/
structure Asks (h : Host) (db : Db) (r : ReadRequest) (e : Extent) (path : Name) : Prop where
  getInode : r.getInode = .found
  readEcode : r.readEcode = none
  finds : ∃ inode, db r.inodeNo = some inode ∧ findExtent h inode r.handle = some (e, path)

def ReadRequest.relative (r : ReadRequest) (e : Extent) : BitVec 64 := r.offset - e.offset

/-- `written` is what `sstack_write` left in the file. If that is there and can be read, the answer
is a success with the bytes from the offset on; if not, no success. -/
def ReadsStored (crc : Bytes → BitVec 32) (h : Host) (db : Db) (files : Name → LocalFile)
    (r : ReadRequest) (e : Extent) (path : Name) (written : Bytes) : Prop :=
  ((files path).content = written →
    Returns ((files path).read maxExtentSize (r.relative e)) →
    sstackRead crc h db files r = .ok
      ⟨(written.drop (r.relative e).toNat).length, written.drop (r.relative e).toNat⟩) ∧
  (¬ Returns ((files path).read maxExtentSize (r.relative e)) ∨
      crc (files path).content ≠ e.cksum →
    commandOk (sstackRead crc h db files r) ≠ 100)

/-- The read succeeds and, if the file is unchanged, gets to its end and to bytes with the checksum
of the whole; if the checksum does not fit the file it does not fit what is read. Without memory,
the file is changed or cannot be read. -/
def ReadFits (crc : Bytes → BitVec 32) (file : LocalFile) (e : Extent) (r : ReadRequest)
    (written : Bytes) : Prop :=
  if r.inodeCache = true ∧ r.buffer = true then
    ∃ bytes, file.read maxExtentSize (r.relative e) = .ok bytes ∧
      (file.content = written → written.length ≤ (r.relative e).toNat + maxExtentSize ∧
        crc (written.drop (r.relative e).toNat) = e.cksum) ∧
      (crc bytes = e.cksum → crc file.content = e.cksum)
  else file.content = written → ¬ Returns (file.read maxExtentSize (r.relative e))

section
variable {crc : Bytes → BitVec 32} {h : Host} {db : Db} {files : Name → LocalFile}
  {file : LocalFile} {r : ReadRequest} {e : Extent} {path : Name} {written bytes : Bytes}

theorem LocalFile.read_eq_ok {count : ℕ} {offset : BitVec 64}
    (hread : file.read count offset = .ok bytes) :
    bytes = (file.content.drop offset.toNat).take count := by
  obtain ⟨_, -, hpread⟩ := bind_eq_ok.mp hread
  unfold LocalFile.pread at hpread
  split at hpread
  · cases hpread
  · obtain ⟨_, -, hbytes⟩ := bind_eq_ok.mp hpread
    exact (Except.ok.inj hbytes).symm

theorem LocalFile.read_eq_drop {offset : BitVec 64}
    (hread : file.read maxExtentSize offset = .ok bytes) :
    bytes = file.content.drop offset.toNat ↔
      file.content.length ≤ offset.toNat + maxExtentSize := by
  rw [LocalFile.read_eq_ok hread, List.take_eq_self_iff, List.length_drop]
  omega

section
variable {count : ℕ} {offset : BitVec 64} {cksum : BitVec 32}

theorem readCheckExtent_error {errno : Errno} (checkCksum : Bool)
    (hread : file.read count offset = .error errno) :
    readCheckExtent crc file count offset checkCksum cksum true = ((errno.val : ℤ), []) := by
  unfold readCheckExtent
  rw [if_neg (by decide), hread]

theorem readCheckExtent_ok (hread : file.read count offset = .ok bytes) :
    readCheckExtent crc file count offset true cksum true =
      (if crc bytes = cksum then (bytes.length : ℤ) else -102, bytes) := by
  unfold readCheckExtent
  rw [if_neg (by decide), hread]
  by_cases hcksum : crc bytes = cksum
  · simp [hcksum]
  · simp [hcksum]

end

theorem readPlain_error {errno : Errno} (hbuffer : r.buffer = true)
    (hread : file.read maxExtentSize (r.relative e) = .error errno) :
    readPlain crc file e r = .ok ⟨errno.val, []⟩ := by
  unfold ReadRequest.relative at hread
  unfold readPlain
  rw [require_bind_of hbuffer, hbuffer, readCheckExtent_error true hread]
  exact require_bind_of (Int.natCast_nonneg _) _

theorem readPlain_ok (hbuffer : r.buffer = true)
    (hread : file.read maxExtentSize (r.relative e) = .ok bytes) :
    readPlain crc file e r =
      if crc bytes = e.cksum then .ok ⟨bytes.length, bytes⟩ else .error (-61) := by
  unfold ReadRequest.relative at hread
  unfold readPlain
  rw [require_bind_of hbuffer, hbuffer, readCheckExtent_ok hread]
  dsimp only
  split
  · exact require_bind_of (Int.natCast_nonneg _) _
  · exact require_bind_of_not (by decide) _

theorem Asks.sstackRead_eq (ha : Asks h db r e path) (hcache : r.inodeCache = true) :
    sstackRead crc h db files r = readPlain crc (files path) e r := by
  obtain ⟨inode, hn, hfind⟩ := ha.finds
  have hinode : readInode db r.inodeNo .found = inode := by
    unfold readInode
    rw [hn]
    rfl
  unfold sstackRead
  rw [require_bind_of hcache, require_bind_of ⟨by rw [hn]; simp, ha.getInode⟩, hinode, hfind,
    ha.readEcode]

theorem Asks.sstackRead_nomem (ha : Asks h db r e path)
    (hmem : ¬ (r.inodeCache = true ∧ r.buffer = true)) :
    sstackRead crc h db files r = .error (-12) := by
  by_cases hcache : r.inodeCache = true
  · rw [ha.sstackRead_eq hcache]
    unfold readPlain
    exact require_bind_of_not (fun hbuffer => hmem ⟨hcache, hbuffer⟩) _
  · unfold sstackRead
    exact require_bind_of_not hcache _

/-- The answer to a request for an extent is right exactly if the read fits. -/
theorem readsStored_iff (ha : Asks h db r e path) :
    ReadsStored crc h db files r e path written ↔ ReadFits crc (files path) e r written := by
  unfold ReadsStored ReadFits
  split
  · rename_i hmem
    rw [ha.sstackRead_eq hmem.1]
    cases hread : (files path).read maxExtentSize (r.relative e) with
    | error errno =>
      -- The number of the error is taken for a length, and the answer is a success.
      rw [readPlain_error hmem.2 hread]
      apply iff_of_false
      · rintro ⟨-, hfails⟩
        exact hfails (Or.inl (not_returns_error errno)) rfl
      · rintro ⟨bytes, hbytes, -⟩
        cases hbytes
    | ok bytes =>
      rw [readPlain_ok hmem.2 hread]
      constructor
      · rintro ⟨hsame, hfails⟩
        refine ⟨bytes, rfl, ?_, ?_⟩
        · intro hcontent
          have hok := hsame hcontent (returns_ok bytes)
          split at hok
          · rename_i hcksum
            have hbytes := (ReadData.mk.inj (Except.ok.inj hok)).2
            rw [← hbytes, ← hcontent]
            rw [← hcontent] at hbytes
            exact ⟨(LocalFile.read_eq_drop hread).mp hbytes, hcksum⟩
          · cases hok
        · intro hcksum
          by_contra hchanged
          rw [if_pos hcksum] at hfails
          exact hfails (Or.inr hchanged) rfl
      · rintro ⟨bytes', hbytes, hsame, hfits⟩
        obtain rfl := Except.ok.inj hbytes
        constructor
        · intro hcontent _
          obtain ⟨hlen, hcksum⟩ := hsame hcontent
          rw [← hcontent] at hlen hcksum ⊢
          rw [(LocalFile.read_eq_drop hread).mpr hlen, if_pos hcksum]
        · intro hbad
          have hchanged : crc (files path).content ≠ e.cksum :=
            hbad.resolve_left (not_not_intro (returns_ok bytes))
          rw [if_neg (fun hcksum => hchanged (hfits hcksum))]
          decide
  · rename_i hmem
    rw [ha.sstackRead_nomem hmem]
    constructor
    · rintro ⟨hsame, -⟩ hcontent hreturns
      cases hsame hcontent hreturns
    · intro hunread
      constructor
      · intro hcontent hreturns
        exact absurd hreturns (hunread hcontent)
      · intro _
        decide

end

def fiveExtent : Extent :=
  ⟨0, 5, 5, 7, 1, ⟨12, ['/', 'e', '/', '1', '0', '-', 'X', 'X', 'X', 'X', 'X', 'X'], .nfs,
    ⟨.ipv4, ['a']⟩⟩⟩

def fivePath : Name := ['/', 'm', '/', '1', '0', '-', 'X', 'X', 'X', 'X', 'X', 'X']

def fiveStored : Db := fun n =>
  if n = 2 then storedInode (oneChunk true) emptyInodes.db (goodRequest 2 5 0 10) else none

def fiveRequest (offset : BitVec 64) : ReadRequest :=
  ⟨2, fiveExtent.path, offset, none, true, .found, true⟩

theorem fiveStored_two : fiveStored 2 = some ⟨true, 5, 1, [fiveExtent]⟩ := by decide

theorem fiveRequest_asks (offset : BitVec 64) :
    Asks (oneChunk true) fiveStored (fiveRequest offset) fiveExtent fivePath where
  getInode := rfl
  readEcode := rfl
  finds := by
    have hfind : findExtent (oneChunk true) ⟨true, 5, 1, [fiveExtent]⟩ fiveExtent.path =
        some (fiveExtent, fivePath) := by decide
    exact ⟨_, fiveStored_two, hfind⟩

def fiveFile (opened : Except Errno Unit) : LocalFile := ⟨opened, .ok (), List.replicate 5 1⟩

theorem fiveRequest_unopened (crc : Bytes → BitVec 32) :
    sstackRead crc (oneChunk true) fiveStored (fun _ => fiveFile (.error 13)) (fiveRequest 0) =
      .ok ⟨13, []⟩ := by
  have hread : (fiveFile (.error 13)).read maxExtentSize ((fiveRequest 0).relative fiveExtent) =
      .error 13 := rfl
  rw [(fiveRequest_asks 0).sstackRead_eq rfl]
  exact readPlain_error rfl hread

theorem readsStored_iff_start :
    Asks (oneChunk true) fiveStored (fiveRequest 0) fiveExtent fivePath ∧
    ReadsStored (fun bytes => if bytes.length = 5 then 7 else 0) (oneChunk true) fiveStored
      (fun _ => fiveFile (.ok ())) (fiveRequest 0) fiveExtent fivePath (List.replicate 5 1) := by
  refine ⟨fiveRequest_asks 0, (readsStored_iff (fiveRequest_asks 0)).mpr ?_⟩
  unfold ReadFits
  rw [if_pos ⟨rfl, rfl⟩]
  exact ⟨_, rfl, by decide, by decide⟩

/-- A file that may not be opened is answered with a success. A read from the second byte on is
refused, unless the rest has the checksum of the whole. -/
theorem readsStored_misses : fiveStored 2 = some ⟨true, 5, 1, [fiveExtent]⟩ ∧
    ∀ crc : Bytes → BitVec 32,
      commandOk (sstackRead crc (oneChunk true) fiveStored (fun _ => fiveFile (.error 13))
        (fiveRequest 0)) = 100 ∧
      ¬ ReadsStored crc (oneChunk true) fiveStored (fun _ => fiveFile (.error 13)) (fiveRequest 0)
        fiveExtent fivePath (List.replicate 5 1) ∧
      (crc (List.replicate 4 1) ≠ fiveExtent.cksum →
        ¬ ReadsStored crc (oneChunk true) fiveStored (fun _ => fiveFile (.ok ())) (fiveRequest 1)
          fiveExtent fivePath (List.replicate 5 1)) := by
  refine ⟨fiveStored_two, ?_⟩
  intro crc
  have hsuccess : commandOk (sstackRead crc (oneChunk true) fiveStored
      (fun _ => fiveFile (.error 13)) (fiveRequest 0)) = 100 := by
    rw [fiveRequest_unopened]
    rfl
  refine ⟨hsuccess, ?_, ?_⟩
  · rintro ⟨-, hfails⟩
    exact hfails (Or.inl (not_returns_error 13)) hsuccess
  · rintro hcksum ⟨hsame, -⟩
    have hread : (fiveFile (.ok ())).read maxExtentSize ((fiveRequest 1).relative fiveExtent) =
        .ok (List.replicate 4 1) := by rfl
    have hok := hsame rfl ⟨_, hread⟩
    rw [(fiveRequest_asks 1).sstackRead_eq rfl, readPlain_ok rfl hread, if_neg hcksum] at hok
    cases hok

end SeamlessStack.Sfsd

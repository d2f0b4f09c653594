import SeamlessStack.Sfsd.Checked
import SeamlessStack.Sfsd.Handle

/-! The daemon as a store: the database together with the local files. A file is opened without
`O_TRUNC` and written from its start. Seen from its reads the store is a list of byte strings for
each inode. -/
namespace SeamlessStack.Sfsd

open Lib Function

/-- `log` is history: what the requests that stored an extent of the inode came with. -/
structure Store where
  use : WriteUse
  disk : Name → Bytes
  log : ℕ → List Bytes

/-- A request to write, with its bytes. -/
structure Put where
  request : WriteRequest
  buffer : Bytes

/-- The file that `write_update_extent` is called with, if the request comes so far. -/
def writeTarget (h : Host) (db : Db) (r : WriteRequest) : Option Name :=
  if r.inodeCache = true ∧ ((db r.inodeNo).isSome ∧ r.getInode = .found) ∧ r.nameLen = 0 ∧
      r.created = true ∧ r.offset = 0 then
    (r.schedule.bind (h.chunks[·]?)).map (extentName · r.time)
  else none

def overwrite (old written : Bytes) : Bytes := written ++ old.drop written.length

/-- The files behind a request, also one that fails after the write. -/
def writeDisk (h : Host) (s : Store) (p : Put) : Name → Bytes :=
  match writeTarget h s.use.db p.request with
  | some file =>
    update s.disk file (overwrite (s.disk file) (p.request.written p.buffer))
  | none => s.disk

def recordLog (s : Store) (p : Put) : ℕ → List Bytes :=
  if p.request.put then
    update s.log p.request.inodeNo (s.log p.request.inodeNo ++ [p.buffer])
  else s.log

def putStep (h : Host) (s : Store) (p : Put) : Option Store :=
  match sstackWrite h s.use.db p.request with
  | .ok w => some ⟨⟨w.db, recordFile h s.use.files p.request⟩, writeDisk h s p, recordLog s p⟩
  | .error (.failed _) => some { s with disk := writeDisk h s p }
  | .error _ => none

def storeSystem (h : Host) : System Store Put where
  init s := (writeSystem h).init s.use ∧ s.log = fun _ => []
  step := putStep h

/-- A request names a chunk and a file not written to before, its extent is not taken for another
one, and all bytes get to the file. -/
structure Sound (h : Host) (m : Placement) (s : Store) (p : Put) : Prop where
  scheduled : p.request.schedule ≠ none
  distinct : AddsDistinct h s.use p.request
  fresh : ∀ file, writeTarget h s.use.db p.request = some file → s.disk file = []
  carries : Carries m.crc p.request p.buffer
  whole : p.request.written p.buffer = p.buffer
  short : p.buffer.length ≤ maxExtentSize

section
variable {h : Host} {m : Placement} {s t : Store} {p : Put}

theorem putStep_use (ht : putStep h s p = some t) : writeStep h s.use p.request = some t.use := by
  unfold putStep at ht
  split at ht
  next w hw =>
    obtain rfl := Option.some.inj ht
    rw [writeStep, hw]
  next hfailed =>
    obtain rfl := Option.some.inj ht
    rw [writeStep, hfailed]
  next => cases ht

theorem sstackWrite_adds {db : Db} {r : WriteRequest} {w : Written}
    (hw : sstackWrite h db r = .ok w) (hs : r.schedule ≠ none) :
    ∃ inode inode' storage e, db r.inodeNo = some inode ∧
      r.schedule.bind (h.chunks[·]?) = some storage ∧
      writeTarget h db r = some (extentName storage r.time) ∧
      inode'.extents = inode.extents ++ [e] ∧ e.cksum = r.cksum ∧ w.db = putInode db r inode' := by
  obtain ⟨inode, -, hn, -⟩ := sstackWrite_eq_ok hw
  obtain ⟨inode', hp, hdb⟩ := (sstackWrite_db_iff hn).mp ⟨w, hw, rfl⟩
  obtain ⟨hnone, -⟩ | ⟨-, e, hextents, hcksum⟩ := hp.extents
  · exact absurd hnone hs
  obtain ⟨storage, hstorage, -⟩ := hp.file
  obtain ⟨hnone, -⟩ | ⟨c, chunk, hc, hchunk, hcreated, -⟩ := createFile_eq_ok.mp hstorage
  · exact absurd hnone hs
  have hbind : r.schedule.bind (h.chunks[·]?) = some chunk := by
    rw [hc, Option.bind_some, hchunk]
  refine ⟨inode, inode', chunk, e, hn, hbind, ?_, hextents, hcksum, hdb.symm⟩
  rw [writeTarget, if_pos ⟨hp.inodeCache, ⟨by rw [hn]; rfl, hp.getInode⟩, hp.nameLen, hcreated,
    hp.offset⟩, hbind]
  rfl

theorem Sound.target_unused (hp : Sound h m s p) {file : Name}
    (hfile : writeTarget h s.use.db p.request = some file) (n : ℕ) : file ∉ s.use.files n := by
  unfold writeTarget at hfile
  split at hfile
  next hreach =>
    obtain ⟨inode, hn⟩ := Option.isSome_iff_exists.mp hreach.2.1.1
    obtain ⟨storage, hstorage, rfl⟩ := Option.map_eq_some_iff.mp hfile
    obtain ⟨c, hc, hchunk⟩ := Option.bind_eq_some_iff.mp hstorage
    exact (hp.distinct c storage inode hc hchunk hn).unused n
  next => cases hfile

theorem Sound.writeDisk_eq (hp : Sound h m s p) {n : ℕ} {file : Name}
    (hmem : file ∈ s.use.files n) : writeDisk h s p file = s.disk file := by
  unfold writeDisk
  cases htarget : writeTarget h s.use.db p.request with
  | none => rfl
  | some target =>
    apply update_of_ne
    rintro rfl
    exact hp.target_unused htarget n hmem

theorem Sound.cksum_eq (hp : Sound h m s p) : p.request.cksum = m.crc p.buffer := by
  have hnil : m.crc [] = 0 := Placement.crc_eq [] (by simp)
  have hcksum := hp.carries.cksum_iff.mpr (Or.inr hnil)
  rwa [hp.whole] at hcksum

/-- The extents of an inode, their files and the entries of the log belong together. -/
structure Kept (m : Placement) (s : Store) : Prop where
  length : ∀ n, (s.log n).length = (s.use.files n).length
  kept : ∀ (n : ℕ) (inode : Inode), s.use.db n = some inode →
    ∀ (k : ℕ) (e : Extent), inode.extents[k]? = some e →
    ∀ file, (s.use.files n)[k]? = some file → ∀ bytes, (s.log n)[k]? = some bytes →
      s.disk file = bytes ∧ e.cksum = m.crc bytes ∧ bytes.length ≤ maxExtentSize

theorem Kept.failed (hk : Kept m s) (hp : Sound h m s p) :
    Kept m { s with disk := writeDisk h s p } where
  length := hk.length
  kept := by
    intro n inode hn k e he file hfile bytes hbytes
    obtain ⟨hdisk, hrest⟩ := hk.kept n inode hn k e he file hfile bytes hbytes
    exact ⟨by rw [← hdisk]; exact hp.writeDisk_eq (List.mem_of_getElem? hfile), hrest⟩

theorem Kept.snoc (hk : Kept m s) (hp : Sound h m s p) (hlen : FilePerExtent s.use)
    {inode inode' : Inode} {storage : Storage} {e : Extent}
    (hn : s.use.db p.request.inodeNo = some inode)
    (htarget : writeTarget h s.use.db p.request = some (extentName storage p.request.time))
    (hextents : inode'.extents = inode.extents ++ [e]) (hcksum : e.cksum = p.request.cksum) :
    Kept m ⟨⟨update s.use.db p.request.inodeNo (some inode'),
      update s.use.files p.request.inodeNo
        (s.use.files p.request.inodeNo ++ [extentName storage p.request.time])⟩,
      writeDisk h s p,
      update s.log p.request.inodeNo (s.log p.request.inodeNo ++ [p.buffer])⟩ where
  length := by
    intro n
    simp only [update_apply]
    split
    · rw [List.length_append, List.length_append, hk.length]
      rfl
    · exact hk.length n
  kept := by
    have hnew : writeDisk h s p (extentName storage p.request.time) = p.buffer := by
      rw [writeDisk, htarget]
      dsimp only
      rw [update_self, hp.fresh _ htarget, hp.whole, overwrite, List.drop_nil, List.append_nil]
    have hfiles := hlen _ inode hn
    have hlog := hk.length p.request.inodeNo
    intro n other hother k x hx file hfile bytes hbytes
    simp only [update_apply] at hother hfile hbytes
    by_cases hsame : n = p.request.inodeNo
    · subst hsame
      rw [if_pos rfl] at hother hfile hbytes
      obtain rfl := Option.some.inj hother
      rw [hextents] at hx
      obtain hx | ⟨rfl, rfl⟩ := getElem?_snoc hx
      · have hlt := (List.getElem?_eq_some_iff.mp hx).1
        rw [List.getElem?_append_left (by omega)] at hfile hbytes
        obtain ⟨hdisk, hrest⟩ := hk.kept _ inode hn k x hx file hfile bytes hbytes
        exact ⟨by rw [← hdisk]; exact hp.writeDisk_eq (List.mem_of_getElem? hfile), hrest⟩
      · rw [← hfiles, List.getElem?_concat_length] at hfile
        rw [← hfiles, ← hlog, List.getElem?_concat_length] at hbytes
        obtain rfl := Option.some.inj hfile
        obtain rfl := Option.some.inj hbytes
        exact ⟨hnew, hcksum.trans hp.cksum_eq, hp.short⟩
    · rw [if_neg hsame] at hother hfile hbytes
      obtain ⟨hdisk, hrest⟩ := hk.kept n other hother k x hx file hfile bytes hbytes
      exact ⟨by rw [← hdisk]; exact hp.writeDisk_eq (List.mem_of_getElem? hfile), hrest⟩

theorem Kept.step (hk : Kept m s) (hp : Sound h m s p) (hlen : FilePerExtent s.use)
    (ht : putStep h s p = some t) : Kept m t := by
  unfold putStep at ht
  split at ht
  next w hw =>
    obtain rfl := Option.some.inj ht
    obtain ⟨inode, inode', storage, e, hn, hstorage, htarget, hextents, hcksum, hdb⟩ :=
      sstackWrite_adds hw hp.scheduled
    rw [hdb]
    unfold putInode recordFile recordLog
    rw [hstorage]
    dsimp only
    split
    next => exact hk.snoc hp hlen hn htarget hextents hcksum
    next => exact hk.failed hp
  next =>
    obtain rfl := Option.some.inj ht
    exact hk.failed hp
  next => cases ht

theorem reach_kept (hr : (storeSystem h).Reach (Sound h m) s) :
    (writeSystem h).Reach (AddsDistinct h) s.use ∧ Kept m s := by
  apply hr.invariant
  · rintro s ⟨hinit, hlog⟩
    refine ⟨.init hinit, ?_, ?_⟩
    · intro n
      rw [hlog, hinit.2]
      rfl
    · intro n inode hn k e he
      rw [(hinit.1 n inode hn).1] at he
      cases he
  · rintro s p t - ⟨huse, hkept⟩ hp ht
    exact ⟨.step huse hp.distinct (putStep_use ht),
      hkept.step hp (reach_resolveOk huse).length ht⟩

def readOf (n : ℕ) (e : Extent) : ReadRequest := ⟨n, e.path, e.offset, none, true, .found, true⟩

def Store.files (s : Store) (path : Name) : LocalFile := ⟨.ok (), .ok (), s.disk path⟩

/-- Over every run of sound requests, with failures anywhere, the extents of an inode are as many as
the requests that stored one, and each is read as it was written. -/
theorem store_reads_log (hr : (storeSystem h).Reach (Sound h m) s) {n : ℕ} {inode : Inode}
    (hn : s.use.db n = some inode) :
    inode.extents.length = (s.log n).length ∧
      ∀ (k : ℕ) (e : Extent) (bytes : Bytes), inode.extents[k]? = some e →
        (s.log n)[k]? = some bytes →
        sstackRead m.crc h s.use.db s.files (readOf n e) = .ok ⟨bytes.length, bytes⟩ := by
  obtain ⟨huse, hkept⟩ := reach_kept hr
  have hok := reach_resolveOk huse
  refine ⟨by rw [hkept.length, hok.length n inode hn], ?_⟩
  intro k e bytes he hbytes
  obtain ⟨file, hfile, hget, -⟩ := hok.resolves n inode hn k e he
  obtain ⟨hdisk, hcksum, hshort⟩ := hkept.kept n inode hn k e he file hfile bytes hbytes
  have hasks : Asks h s.use.db (readOf n e) e file := by
    refine ⟨rfl, rfl, inode, hn, ?_⟩
    unfold findExtent
    rw [show (readOf n e).handle = e.path from rfl, hget]
    simp [he]
  have hread : (s.files file).read maxExtentSize ((readOf n e).relative e) = .ok bytes := by
    have hzero : (readOf n e).relative e = 0 := BitVec.sub_self _
    rw [hzero, LocalFile.read, LocalFile.pread, if_neg (by decide)]
    change Except.ok (((s.disk file).drop 0).take maxExtentSize) = Except.ok bytes
    rw [hdisk, List.drop_zero, List.take_of_length_le hshort]
  rw [hasks.sstackRead_eq rfl, readPlain_ok rfl hread, if_pos hcksum.symm]

end

def fivePut : Put :=
  ⟨{ goodRequest 2 5 0 10 with crc := checkedExtent.cksum }, fiveBytes⟩

def emptyStore : Store := ⟨emptyInodes, fun _ => [], fun _ => []⟩

theorem fivePut_sound : Sound (oneChunk true) atStart emptyStore fivePut where
  scheduled := by decide
  distinct := by
    intro c storage inode hc _ hinode
    obtain rfl : 0 = c := Option.some.inj hc
    obtain rfl : emptyInode = inode := Option.some.inj hinode
    refine ⟨fun hsize => absurd rfl hsize, fun i hi => by omega, fun e he => ?_, fun n hmem => ?_⟩
    · cases he
    · cases hmem
  fresh _ _ := rfl
  carries := by
    refine ⟨rfl, ?_, ?_⟩ <;> intro n hn <;> obtain rfl : 5 = n := Except.ok.inj hn
    · exact le_refl 5
    · exact checkedExtent_cksum
  whole := rfl
  short := fiveBytes_length

theorem store_reads_log_five : ∃ s inode e,
    (storeSystem (oneChunk true)).Reach (Sound (oneChunk true) atStart) s ∧
    s.use.db 2 = some inode ∧ inode.extents[0]? = some e ∧
    sstackRead atStart.crc (oneChunk true) s.use.db s.files (readOf 2 e) = .ok ⟨5, fiveBytes⟩ := by
  have hstep : ∃ s, putStep (oneChunk true) emptyStore fivePut = some s ∧
      ∃ inode e, s.use.db 2 = some inode ∧ inode.extents[0]? = some e ∧
        (s.log 2)[0]? = some fiveBytes := ⟨_, rfl, _, _, rfl, rfl, rfl⟩
  obtain ⟨s, hs, inode, e, hn, he, hlog⟩ := hstep
  have hr : (storeSystem (oneChunk true)).Reach (Sound (oneChunk true) atStart) s :=
    .step (.init ⟨emptyInodes_init _, rfl⟩) fivePut_sound hs
  exact ⟨s, inode, e, hr, hn, he, (store_reads_log hr hn).2 0 e fiveBytes he hlog⟩

end SeamlessStack.Sfsd

import SeamlessStack.Entry.Calls
import SeamlessStack.Lib.Pieces

/-! The jobs that the loops of `sfs_read` and `sfs_write` make. The offset in a request is that of
the call in every turn; and a request that ends inside its extent has the size 0, so that the loop
makes no progress. `sfs_write` also prints the data to the log. -/
namespace SeamlessStack.Entry

open Lib Body Log

/-- The extents lie one behind the other from 0 on, and the file ends where the last one ends. -/
structure Inode.Tiles (inode : Inode) : Prop where
  empty : inode.numextents = 0 → inode.size = 0
  first : 0 < inode.numextents → (inode.extents 0).offset.toNat = 0
  next : ∀ i, i + 1 < inode.numextents → (inode.extents (i + 1)).offset.toNat =
    (inode.extents i).offset.toNat + (inode.extents i).size.toNat
  last : ∀ i, i + 1 = inode.numextents → inode.size.toNat =
    (inode.extents i).offset.toNat + (inode.extents i).size.toNat

/-- The bytes of the file from `offset` on lie in the extent. -/
def Inode.Holds (inode : Inode) (e : ℕ) (offset count : BitVec 64) : Prop :=
  e < inode.numextents ∧ (inode.extents e).offset.toNat ≤ offset.toNat ∧
    offset.toNat + count.toNat ≤ (inode.extents e).offset.toNat + (inode.extents e).size.toNat

/-! ### The loop of `sfs_read` -/

/-- A request for bytes of the file, with the handle of an extent. -/
structure ReadJob where
  offset : BitVec 64
  count : BitVec 64
  extent : ℕ
  deriving DecidableEq, Repr

def ReadJob.piece (q : ReadJob) : ℕ × ℕ := (q.offset.toNat, q.count.toNat)

section
variable (inode : Inode) (size offset : BitVec 64)

def readStart : ReadLoop := ⟨(if inode.size < size then inode.size else size).setWidth 32, 0⟩

/-- The variables behind a turn, for the extent that was found before the loop. -/
def readNext (e : ℕ) (s : ReadLoop) : ReadLoop :=
  ⟨s.bytesToRead - (s.bytesIssued + (inode.extents e).part size offset).setWidth 32,
    s.bytesIssued + (inode.extents e).part size offset⟩

/-- The jobs of the loop, if it ends in time. Without an extent it reads through a null pointer. -/
def readJobs : ℕ → ReadLoop → Option (List ReadJob)
  | 0, s => if s.bytesToRead = 0 then some [] else none
  | fuel + 1, s =>
    if s.bytesToRead = 0 then some []
    else do
      let e ← inode.readExtent offset
      let jobs ← readJobs fuel (readNext inode size offset e s)
      return ⟨offset, (inode.extents e).part size offset, e⟩ :: jobs

/-- The loop ends, and its requests are for the bytes from `offset` to the end of the request or of
the file, once and in order, each from the extent whose handle it carries. -/
def ReadsExactly : Prop :=
  ∃ fuel jobs, readJobs inode size offset fuel (readStart inode size) = some jobs ∧
    Covers (jobs.map ReadJob.piece) offset.toNat
      (min (offset.toNat + size.toNat) inode.size.toNat) ∧
    ∀ q ∈ jobs, inode.Holds q.extent q.offset q.count

/-- The extent found reaches to the end of the file, the request beyond it, and `bytes_to_read`,
which does not know the offset, starts from what there is to read. -/
def ReadFits : Prop :=
  ∃ e, inode.readExtent offset = some e ∧ (inode.extents e).stop = inode.size ∧
    inode.size < offset + size ∧
    (readStart inode size).bytesToRead = (inode.size - offset).setWidth 32 ∧
    (readStart inode size).bytesToRead ≠ 0

end

variable {e fuel : ℕ}

section
variable {inode : Inode} {size offset : BitVec 64}

theorem toNat_pos_of_ne_zero (hsize : size ≠ 0) : 0 < size.toNat := by
  rw [Nat.pos_iff_ne_zero]
  intro hzero
  exact hsize (BitVec.eq_of_toNat_eq hzero)

theorem Inode.Tiles.stop_toNat (h : inode.Tiles) {i : ℕ} (hi : i < inode.numextents) :
    (inode.extents i).stop.toNat =
      (inode.extents i).offset.toNat + (inode.extents i).size.toNat := by
  have hfit : (inode.extents i).offset.toNat + (inode.extents i).size.toNat < 2 ^ 64 := by
    obtain hlt | heq := Nat.lt_or_eq_of_le (Nat.succ_le_of_lt hi)
    · rw [← h.next i hlt]
      exact (inode.extents (i + 1)).offset.isLt
    · rw [← h.last i heq]
      exact inode.size.isLt
  unfold Extent.stop
  rw [BitVec.toNat_add, Nat.mod_eq_of_lt hfit]

/-- An offset inside the file is covered by an extent. -/
theorem Inode.Tiles.exists_covers (h : inode.Tiles) (ho : offset < inode.size) :
    ∃ i < inode.numextents, (inode.extents i).Covers offset := by
  by_contra hnone
  -- No extent covers the offset, so each of them ends before it, and so does the file.
  have hstop : ∀ i < inode.numextents, (inode.extents i).stop.toNat < offset.toNat := by
    intro i
    induction i with
    | zero =>
      intro hi
      by_contra hle
      refine hnone ⟨0, hi, ?_, ?_⟩
      · rw [BitVec.le_def, h.first hi]
        exact Nat.zero_le _
      · rw [BitVec.le_def]
        omega
    | succ i ih =>
      intro hi
      have hprev := ih (by omega)
      rw [h.stop_toNat (by omega), ← h.next i hi] at hprev
      by_contra hle
      refine hnone ⟨i + 1, hi, ?_, ?_⟩
      · rw [BitVec.le_def]
        omega
      · rw [BitVec.le_def]
        omega
  have hpos : 0 < inode.numextents := by
    by_contra hzero
    rw [h.empty (by omega)] at ho
    exact absurd ho (by simp [BitVec.lt_def])
  have hlast := h.last (inode.numextents - 1) (by omega)
  have hend := hstop (inode.numextents - 1) (by omega)
  rw [h.stop_toNat (by omega), ← hlast] at hend
  rw [BitVec.lt_def] at ho
  omega

theorem Inode.Tiles.readExtent (h : inode.Tiles) (ho : offset < inode.size) :
    ∃ e, inode.readExtent offset = some e ∧ e < inode.numextents ∧
      (inode.extents e).Covers offset := by
  obtain ⟨i, hi, hcovers⟩ := h.exists_covers ho
  unfold Inode.readExtent
  rw [if_neg (by omega)]
  cases hfind : (List.range inode.numextents).find? fun i => (inode.extents i).Covers offset with
  | none =>
    have hnot := List.find?_eq_none.mp hfind i (List.mem_range.mpr hi)
    exact absurd (decide_eq_true hcovers) hnot
  | some e =>
    have hmem := List.mem_range.mp (List.mem_of_find?_eq_some hfind)
    have hfound := List.find?_some hfind
    exact ⟨e, rfl, hmem, of_decide_eq_true hfound⟩

theorem Extent.part_ne {e : Extent} (hsize : size ≠ 0) : e.part size offset ≠ size := by
  unfold Extent.part
  split_ifs with hstop
  · intro heq
    rw [← heq] at hstop
    refine absurd hstop ?_
    rw [BitVec.add_comm, BitVec.sub_add_cancel]
    exact BitVec.lt_irrefl _
  · exact hsize.symm

theorem readNext_start (e : ℕ) : (readNext inode size offset e (readStart inode size)).bytesToRead =
    (readStart inode size).bytesToRead - ((inode.extents e).part size offset).setWidth 32 := by
  simp [readNext, readStart]

theorem readJobs_zero (s : ReadLoop) :
    readJobs inode size offset 0 s = if s.bytesToRead = 0 then some [] else none := rfl

theorem readJobs_succ (he : inode.readExtent offset = some e) (fuel : ℕ) (s : ReadLoop) :
    readJobs inode size offset (fuel + 1) s = if s.bytesToRead = 0 then some []
      else (readJobs inode size offset fuel (readNext inode size offset e s)).map
        (⟨offset, (inode.extents e).part size offset, e⟩ :: ·) := by
  rw [readJobs, he, Option.bind_eq_bind, Option.bind_some]
  cases readJobs inode size offset fuel (readNext inode size offset e s) <;> rfl

theorem readJobs_replicate (he : inode.readExtent offset = some e) {s : ReadLoop}
    {jobs : List ReadJob} (h : readJobs inode size offset fuel s = some jobs) :
    jobs = List.replicate jobs.length ⟨offset, (inode.extents e).part size offset, e⟩ := by
  induction fuel generalizing s jobs with
  | zero =>
    rw [readJobs_zero] at h
    split_ifs at h
    cases h
    rfl
  | succ fuel ih =>
    rw [readJobs_succ he] at h
    split_ifs at h
    · cases h
      rfl
    · obtain ⟨rest, hrest, rfl⟩ := Option.map_eq_some_iff.mp h
      rw [List.length_cons, List.replicate_succ]
      exact congrArg _ (ih hrest)

theorem readJobs_stuck (he : inode.readExtent offset = some e)
    (hpart : (inode.extents e).part size offset = 0) {b : BitVec 32} (hb : b ≠ 0) (fuel : ℕ) :
    readJobs inode size offset fuel ⟨b, 0⟩ = none := by
  induction fuel with
  | zero => rw [readJobs_zero, if_neg hb]
  | succ fuel ih =>
    have hsame : readNext inode size offset e ⟨b, 0⟩ = ⟨b, 0⟩ := by
      simp [readNext, hpart]
    rw [readJobs_succ he, if_neg hb, hsame, ih]
    rfl

theorem readJobs_nil (he : inode.readExtent offset = some e) {s : ReadLoop}
    (h : readJobs inode size offset fuel s = some []) : s.bytesToRead = 0 := by
  by_contra hs
  cases fuel with
  | zero =>
    rw [readJobs_zero, if_neg hs] at h
    cases h
  | succ fuel =>
    rw [readJobs_succ he, if_neg hs] at h
    obtain ⟨rest, -, hcons⟩ := Option.map_eq_some_iff.mp h
    cases hcons

theorem readJobs_singleton (he : inode.readExtent offset = some e) {s : ReadLoop} {q : ReadJob}
    (h : readJobs inode size offset fuel s = some [q]) :
    s.bytesToRead ≠ 0 ∧ (readNext inode size offset e s).bytesToRead = 0 := by
  cases fuel with
  | zero =>
    rw [readJobs_zero] at h
    split_ifs at h
    cases h
  | succ fuel =>
    rw [readJobs_succ he] at h
    split_ifs at h with hs
    · cases h
    · obtain ⟨rest, hrest, hcons⟩ := Option.map_eq_some_iff.mp h
      obtain ⟨-, rfl⟩ := List.cons.inj hcons
      exact ⟨hs, readJobs_nil he hrest⟩

/-- Requests that cover their range are one request. -/
theorem ReadsExactly.fits (h : ReadsExactly inode size offset) (ht : inode.Tiles)
    (ho : offset < inode.size) (hsize : size ≠ 0) : ReadFits inode size offset := by
  obtain ⟨fuel, jobs, hjobs, hcovers, -⟩ := h
  obtain ⟨e, he, -, -⟩ := ht.readExtent ho
  have hpos : 0 < size.toNat := toNat_pos_of_ne_zero hsize
  have hlt : offset.toNat < min (offset.toNat + size.toNat) inode.size.toNat := by
    rw [BitVec.lt_def] at ho
    omega
  have hreplicate := readJobs_replicate he hjobs
  rw [hreplicate, List.map_replicate] at hcovers
  obtain ⟨hone, hpiece⟩ := hcovers.replicate hlt
  have hcount : ((inode.extents e).part size offset).toNat =
      min (offset.toNat + size.toNat) inode.size.toNat - offset.toNat := hpiece
  rw [hone] at hreplicate
  rw [hreplicate] at hjobs
  obtain ⟨hmore, hdone⟩ := readJobs_singleton he hjobs
  -- The request is shorter than the call asked for, so it ends with the file.
  have hne : (inode.extents e).part size offset ≠ size := Extent.part_ne hsize
  have hne' : ((inode.extents e).part size offset).toNat ≠ size.toNat :=
    fun heq => hne (BitVec.eq_of_toNat_eq heq)
  have hrest : (inode.extents e).part size offset = inode.size - offset := by
    apply BitVec.eq_of_toNat_eq
    rw [BitVec.toNat_sub_of_le (BitVec.le_of_lt ho)]
    omega
  have hbytes : (readStart inode size).bytesToRead = (inode.size - offset).setWidth 32 := by
    rw [readNext_start, hrest] at hdone
    have hadd := congrArg (· + (inode.size - offset).setWidth 32) hdone
    rw [BitVec.sub_add_cancel] at hadd
    exact hadd.trans (BitVec.zero_add _)
  have hstop : (inode.extents e).stop < offset + size ∧
      (inode.extents e).stop - offset = inode.size - offset := by
    have hzero : (inode.extents e).part size offset ≠ 0 := by
      intro hzero
      have hnone : ((inode.extents e).part size offset).toNat = 0 := by rw [hzero]; rfl
      omega
    rw [← hrest]
    unfold Extent.part at hzero ⊢
    split_ifs at hzero ⊢ with hspan
    · exact ⟨hspan, rfl⟩
    · exact absurd rfl hzero
  have hend : (inode.extents e).stop = inode.size := by
    have hadd := congrArg (· + offset) hstop.2
    simpa only [BitVec.sub_add_cancel] using hadd
  refine ⟨e, he, hend, ?_, hbytes, hmore⟩
  rw [← hend]
  exact hstop.1

theorem ReadFits.readsExactly (h : ReadFits inode size offset) (ht : inode.Tiles)
    (ho : offset < inode.size) : ReadsExactly inode size offset := by
  obtain ⟨e, he, hend, hspan, hbytes, hmore⟩ := h
  obtain ⟨e', he', hlt, hcovers⟩ := ht.readExtent ho
  obtain rfl : e = e' := Option.some.inj (he.symm.trans he')
  have hpart : (inode.extents e).part size offset = inode.size - offset := by
    unfold Extent.part
    rw [hend, if_pos hspan]
  have hnext : (readNext inode size offset e (readStart inode size)).bytesToRead = 0 := by
    rw [readNext_start, hpart, hbytes]
    exact BitVec.sub_self _
  have hcount : (inode.size - offset).toNat = inode.size.toNat - offset.toNat :=
    BitVec.toNat_sub_of_le (BitVec.le_of_lt ho)
  have hbound : inode.size.toNat ≤ offset.toNat + size.toNat := by
    rw [BitVec.lt_def, BitVec.toNat_add] at hspan
    exact hspan.le.trans (Nat.mod_le _ _)
  rw [BitVec.lt_def] at ho
  refine ⟨1, [⟨offset, inode.size - offset, e⟩], ?_, ?_, ?_⟩
  · rw [readJobs_succ he, if_neg hmore, readJobs_zero, if_pos hnext, hpart]
    rfl
  · have hmin : min (offset.toNat + size.toNat) inode.size.toNat =
        offset.toNat + (inode.size - offset).toNat := by omega
    rw [hmin]
    exact covers_singleton _ _
  · intro q hq
    obtain rfl := List.mem_singleton.mp hq
    have hstop := ht.stop_toNat hlt
    rw [hend] at hstop
    have hinside : offset.toNat + (inode.size - offset).toNat ≤
        (inode.extents e).offset.toNat + (inode.extents e).size.toNat := by omega
    exact ⟨hlt, hcovers.1, hinside⟩

/-- The requests of `sfs_read` are right exactly when one extent holds all that is left of the file
and `bytes_to_read` happens to be as much. -/
theorem sfsRead_requests (ht : inode.Tiles) (ho : offset < inode.size) (hsize : size ≠ 0) :
    ReadsExactly inode size offset ↔ ReadFits inode size offset :=
  ⟨fun h => h.fits ht ho hsize, fun h => h.readsExactly ht ho⟩

end

/-- A file of 8 bytes in one extent. -/
def eightBytes : Inode where
  numclients := 1
  primary := true
  sfsds := true
  size := 8
  numextents := 1
  extents := fun i => if i = 0 then ⟨0, 8⟩ else ⟨8, 0⟩
  mode := 0
  xattr := []

theorem eightBytes_tiles : eightBytes.Tiles where
  empty h := by cases h
  first _ := rfl
  next i h := by
    have hlt : i + 1 < 1 := h
    omega
  last i h := by
    obtain rfl : i = 0 := Nat.succ.inj h
    rfl

/-- A read beyond the end of a small file is one request. -/
theorem sfsRead_requests_beyond : eightBytes.Tiles ∧ ReadsExactly eightBytes 4096 0 := by
  have hfits : ReadFits eightBytes 4096 0 :=
    ⟨0, rfl, rfl, by decide, by decide, by decide⟩
  exact ⟨eightBytes_tiles, (sfsRead_requests eightBytes_tiles (by decide) (by decide)).mpr hfits⟩

/-- A read of the first four bytes makes requests without end. -/
theorem sfsRead_requests_inside : eightBytes.Tiles ∧ (0 : BitVec 64) < eightBytes.size ∧
    (∀ fuel, readJobs eightBytes 4 0 fuel (readStart eightBytes 4) = none) ∧
    ¬ ReadsExactly eightBytes 4 0 := by
  have hstuck : ∀ fuel, readJobs eightBytes 4 0 fuel (readStart eightBytes 4) = none :=
    fun fuel => readJobs_stuck (e := 0) rfl rfl (by decide) fuel
  refine ⟨eightBytes_tiles, by decide, hstuck, ?_⟩
  rintro ⟨fuel, jobs, hjobs, -⟩
  rw [hstuck fuel] at hjobs
  cases hjobs

/-! ### The loop of `sfs_write` -/

/-- A request to write `count` bytes from `start` on; the handle of the extent stays cleared. -/
structure WriteJob where
  offset : BitVec 64
  count : BitVec 64
  start : BitVec 64
  handle : Option ℕ
  deriving DecidableEq, Repr

def WriteJob.piece (q : WriteJob) : ℕ × ℕ := (q.offset.toNat, q.count.toNat)

def WriteJob.bufferPiece (q : WriteJob) : ℕ × ℕ := (q.start.toNat, q.count.toNat)

section
variable (inode : Inode) (ctx : ℕ) (buf : ℕ → UInt8) (size offset : BitVec 64)

def writeStart : WriteLoop := ⟨inode.writeExtent offset, size.setWidth 32, 0⟩

def writeSize (s : WriteLoop) : BitVec 64 :=
  match s.extent with
  | some e => (inode.extents e).part size offset
  | none => size

def writeNext (s : WriteLoop) : WriteLoop :=
  ⟨s.extent.map fun e => if (inode.extents e).stop < offset + size then e + 1 else e,
    (size - (s.bytesIssued + writeSize inode size offset s)).setWidth 32,
    s.bytesIssued + writeSize inode size offset s⟩

/-- The message with the data of a request: memory from the buffer on, and the log level. -/
def Shown (s : WriteLoop) : Prop :=
  sfsDebug ≤ ctx → ∃ i < sfsLogEntryLen - "Data1: \n".length, buf (s.bytesIssued.toNat + i) = 0

instance (s : WriteLoop) : Decidable (Shown ctx buf s) := inferInstanceAs (Decidable (_ → _))

/-- The jobs of the loop, if it ends in time. A message too long for the log ends the process. -/
def writeJobs : ℕ → WriteLoop → Option (List WriteJob)
  | 0, s => if s.bytesToWrite = 0 then some [] else none
  | fuel + 1, s =>
    if s.bytesToWrite = 0 then some []
    else if Shown ctx buf s then do
      let jobs ← writeJobs fuel (writeNext inode size offset s)
      return ⟨offset, writeSize inode size offset s, s.bytesIssued, none⟩ :: jobs
    else none

/-- The loop ends, and its requests are for the bytes of the call and of its buffer, once and in
order; one inside the file carries the handle of its extent, one beyond it none. -/
def WritesExactly : Prop :=
  ∃ fuel jobs, writeJobs inode ctx buf size offset fuel (writeStart inode size offset) = some jobs ∧
    Covers (jobs.map WriteJob.piece) offset.toNat (offset.toNat + size.toNat) ∧
    Covers (jobs.map WriteJob.bufferPiece) 0 size.toNat ∧
    ∀ q ∈ jobs, q.count ≠ 0 → match q.handle with
      | some e => inode.Holds e q.offset q.count
      | none => inode.size ≤ q.offset

end

section
variable {inode : Inode} {ctx : ℕ} {buf : ℕ → UInt8} {size offset : BitVec 64}

theorem writeJobs_zero (s : WriteLoop) :
    writeJobs inode ctx buf size offset 0 s = if s.bytesToWrite = 0 then some [] else none := rfl

theorem writeJobs_succ (fuel : ℕ) (s : WriteLoop) :
    writeJobs inode ctx buf size offset (fuel + 1) s = if s.bytesToWrite = 0 then some []
      else if Shown ctx buf s then
        (writeJobs inode ctx buf size offset fuel (writeNext inode size offset s)).map
          (⟨offset, writeSize inode size offset s, s.bytesIssued, none⟩ :: ·)
      else none := by
  rw [writeJobs]
  cases writeJobs inode ctx buf size offset fuel (writeNext inode size offset s) <;> rfl

/-- As long as there is an extent to look at, requests are too short and start at the offset. -/
theorem writeJobs_parts (hsize : size ≠ 0) {s : WriteLoop} {jobs : List WriteJob}
    (hextent : s.extent ≠ none) (h : writeJobs inode ctx buf size offset fuel s = some jobs) :
    ∀ q ∈ jobs, q.offset = offset ∧ q.count ≠ size := by
  induction fuel generalizing s jobs with
  | zero =>
    rw [writeJobs_zero] at h
    split_ifs at h
    cases h
    simp
  | succ fuel ih =>
    rw [writeJobs_succ] at h
    split_ifs at h
    · cases h
      simp
    · obtain ⟨rest, hrest, rfl⟩ := Option.map_eq_some_iff.mp h
      obtain ⟨e, he⟩ := Option.ne_none_iff_exists'.mp hextent
      have hnext : (writeNext inode size offset s).extent ≠ none := by
        simp [writeNext, he]
      have hpart : writeSize inode size offset s = (inode.extents e).part size offset := by
        unfold writeSize
        rw [he]
      rw [List.forall_mem_cons, hpart]
      exact ⟨⟨rfl, Extent.part_ne hsize⟩, ih hnext hrest⟩

theorem writeJobs_nil {s : WriteLoop} {jobs : List WriteJob}
    (hs : s.bytesToWrite = 0) (h : writeJobs inode ctx buf size offset fuel s = some jobs) :
    jobs = [] := by
  cases fuel with
  | zero =>
    rw [writeJobs_zero, if_pos hs] at h
    exact (Option.some.inj h).symm
  | succ fuel =>
    rw [writeJobs_succ, if_pos hs] at h
    exact (Option.some.inj h).symm

theorem writeJobs_stuck (hspan : ¬ (inode.extents e).stop < offset + size)
    (hsize : size.setWidth 32 ≠ 0) (fuel : ℕ) :
    writeJobs inode ctx buf size offset fuel ⟨some e, size.setWidth 32, 0⟩ = none := by
  induction fuel with
  | zero => rw [writeJobs_zero, if_neg hsize]
  | succ fuel ih =>
    have hsame : writeNext inode size offset ⟨some e, size.setWidth 32, 0⟩ =
        ⟨some e, size.setWidth 32, 0⟩ := by
      simp [writeNext, writeSize, Extent.part, hspan]
    rw [writeJobs_succ, if_neg hsize, hsame, ih]
    split_ifs
    · rfl
    · rfl

theorem shown_of_writeJobs {s : WriteLoop} {jobs : List WriteJob}
    (hs : s.bytesToWrite ≠ 0) (h : writeJobs inode ctx buf size offset fuel s = some jobs) :
    Shown ctx buf s := by
  cases fuel with
  | zero =>
    rw [writeJobs_zero, if_neg hs] at h
    cases h
  | succ fuel =>
    by_contra hshown
    rw [writeJobs_succ, if_neg hs, if_neg hshown] at h
    cases h

/-- The requests of `sfs_write` are right exactly when the file has no extent, `bytes_to_write` does
not lose the size, and the data fit in the message to the log. -/
theorem sfsWrite_requests (ht : inode.Tiles) (ho : offset ≤ inode.size) (hsize : size ≠ 0) :
    WritesExactly inode ctx buf size offset ↔ inode.numextents = 0 ∧ size.setWidth 32 ≠ 0 ∧
      (sfsDebug ≤ ctx → ∃ i < 120, buf i = 0) := by
  have hstart : Shown ctx buf (writeStart inode size offset) ↔
      (sfsDebug ≤ ctx → ∃ i < 120, buf i = 0) := by
    have hzero : ∀ i, (writeStart inode size offset).bytesIssued.toNat + i = i := Nat.zero_add
    unfold Shown
    simp only [hzero]
    rfl
  have hpos : 0 < size.toNat := toNat_pos_of_ne_zero hsize
  constructor
  · rintro ⟨fuel, jobs, hjobs, hcovers, -, -⟩
    have hlt : offset.toNat < offset.toNat + size.toNat := by omega
    have hwidth : size.setWidth 32 ≠ 0 := by
      intro hzero
      have hnil := writeJobs_nil (s := writeStart inode size offset) hzero hjobs
      rw [hnil] at hcovers
      exact hcovers.ne_nil hlt rfl
    refine ⟨?_, hwidth, hstart.mp (shown_of_writeJobs hwidth hjobs)⟩
    · by_contra hextents
      have hextent : (writeStart inode size offset).extent ≠ none := by
        change inode.writeExtent offset ≠ none
        unfold Inode.writeExtent
        rw [if_neg hextents]
        split_ifs <;> simp
      have hparts := writeJobs_parts hsize hextent hjobs
      -- One of the requests would have to be the whole range.
      have hmem := hcovers.mem_of_start hlt fun p hp => by
        obtain ⟨q, hq, rfl⟩ := List.mem_map.mp hp
        exact congrArg BitVec.toNat (hparts q hq).1
      obtain ⟨q, hq, hpiece⟩ := List.mem_map.mp hmem
      have hcount : q.count.toNat = size.toNat := by
        rw [Nat.add_sub_cancel_left] at hpiece
        exact congrArg Prod.snd hpiece
      exact (hparts q hq).2 (BitVec.eq_of_toNat_eq hcount)
  · rintro ⟨hextents, hwidth, hshown⟩
    have hempty := ht.empty hextents
    obtain rfl : offset = 0 := by
      rw [hempty, BitVec.le_def] at ho
      exact BitVec.eq_of_toNat_eq (Nat.le_zero.mp ho)
    have hloop : writeStart inode size 0 = ⟨none, size.setWidth 32, 0⟩ := by
      unfold writeStart Inode.writeExtent
      rw [if_pos hextents]
    have hnext : (writeNext inode size 0 ⟨none, size.setWidth 32, 0⟩).bytesToWrite = 0 := by
      simp [writeNext, writeSize]
    refine ⟨1, [⟨0, size, 0, none⟩], ?_, ?_, ?_, ?_⟩
    · rw [hloop] at hstart ⊢
      rw [writeJobs_succ, if_neg hwidth, if_pos (hstart.mpr hshown), writeJobs_zero, if_pos hnext]
      rfl
    · exact covers_singleton _ _
    · have hcovers := covers_singleton 0 size.toNat
      rw [Nat.zero_add] at hcovers
      exact hcovers
    · intro q hq _
      obtain rfl := List.mem_singleton.mp hq
      change inode.size ≤ 0
      rw [hempty]
      exact BitVec.le_refl _

end

def noBytes : Inode := { eightBytes with size := 0, numextents := 0 }

theorem noBytes_tiles : noBytes.Tiles where
  empty _ := rfl
  first h := by cases h
  next i h := by cases h
  last i h := by cases h

def hello (i : ℕ) : UInt8 := [104, 101, 108, 108, 111].getD i 0

theorem sfsWrite_requests_first : noBytes.Tiles ∧ WritesExactly noBytes sfsDebug hello 5 0 :=
  ⟨noBytes_tiles, (sfsWrite_requests noBytes_tiles (by decide) (by decide)).mpr
    ⟨rfl, by decide, fun _ => ⟨5, by decide, rfl⟩⟩⟩

/-- A write over the first four bytes makes requests without end, and one of 200 characters does not
get past the log. -/
theorem sfsWrite_requests_inside :
    (eightBytes.Tiles ∧ ∀ ctx buf, (∀ fuel, writeJobs eightBytes ctx buf 4 0 fuel
        (writeStart eightBytes 4 0) = none) ∧ ¬ WritesExactly eightBytes ctx buf 4 0) ∧
      noBytes.Tiles ∧ ¬ WritesExactly noBytes sfsDebug (fun _ => 120) 200 0 := by
  refine ⟨⟨eightBytes_tiles, fun ctx buf => ?_⟩, noBytes_tiles, ?_⟩
  · have hstuck : ∀ fuel,
        writeJobs eightBytes ctx buf 4 0 fuel (writeStart eightBytes 4 0) = none :=
      fun fuel => writeJobs_stuck (e := 0) (by decide) (by decide) fuel
    refine ⟨hstuck, ?_⟩
    rintro ⟨fuel, jobs, hjobs, -⟩
    rw [hstuck fuel] at hjobs
    cases hjobs
  · rintro ⟨fuel, jobs, hjobs, -⟩
    obtain ⟨i, -, hzero⟩ := shown_of_writeJobs (by decide) hjobs le_rfl
    cases hzero

/-! ### The entry points

When no call fails, the loops of `sfsRead` and `sfsWrite` take the turns that make these jobs. -/

/-- No call between `sfs_job_init` and `sfs_submit_job` fails. -/
structure World.Submits (w : World) : Prop where
  primary : w.inode.primary = true
  jobInit : ∀ i, w.null .sfsJobInit i = false
  payload : ∀ i, w.null .sstackCreatePayload i = false
  jobIds : ∀ i, w.null .reallocJobIds i = false
  jobStatus : ∀ i, w.null .reallocJobStatus i = false
  mapInsert : ∀ i, w.ret .sfsJob2threadMapInsert i ≠ -1
  submitJob : ∀ i, w.ret .sfsSubmitJob i ≠ -1

section
variable {w : World} {size offset : BitVec 64}

theorem World.Submits.submit (h : w.Submits) (i : ℕ) : submit w i true = pure () := by
  unfold Entry.submit
  simp only [h.jobInit, h.payload, h.jobIds, h.jobStatus, h.mapInsert, h.submitJob,
    crashIf_bind, exitIf, Bool.false_eq_true, Bool.true_eq_false, or_self, if_false]
  rfl

theorem World.Submits.readTurn (h : w.Submits) (he : w.inode.readExtent offset = some e)
    (i : ℕ) (s : ReadLoop) :
    readTurn w size offset i s = pure (readNext w.inode size offset e s) := by
  unfold Entry.readTurn
  dsimp only
  rw [he, h.primary, Option.isSome_some, Bool.and_self, h.submit]
  rfl

theorem World.Submits.writeTurn (h : w.Submits) (i : ℕ) (s : WriteLoop) :
    writeTurn w size offset i s = pure (writeNext w.inode size offset s) := by
  unfold Entry.writeTurn
  rw [h.submit]
  rfl

theorem sfsRead_turns (h : w.Submits) (he : w.inode.readExtent offset = some e)
    (fuel i : ℕ) (s : ReadLoop) (l : List LockOp) :
    (∃ s', turns (fun s : ReadLoop => s.bytesToRead ≠ 0) (readTurn w size offset) fuel i s l =
      (.ok s', l)) ↔ ∃ jobs, readJobs w.inode size offset fuel s = some jobs := by
  apply turns_of_pure (fun fuel s => ∃ jobs, readJobs w.inode size offset fuel s = some jobs)
    (h.readTurn he)
  · intro s
    rw [readJobs_zero]
    split_ifs with hs <;> simpa using hs
  · intro fuel s
    rw [readJobs_succ he]
    split_ifs with hs
    · simpa using Or.inl hs
    · simpa using fun hzero => absurd hzero hs

theorem sfsWrite_turns {ctx : ℕ} {buf : ℕ → UInt8} (h : w.Submits)
    (hshown : ∀ s, Shown ctx buf s) (fuel i : ℕ) (s : WriteLoop) (l : List LockOp) :
    (∃ s', turns (fun s : WriteLoop => s.bytesToWrite ≠ 0) (writeTurn w size offset) fuel i s l =
      (.ok s', l)) ↔ ∃ jobs, writeJobs w.inode ctx buf size offset fuel s = some jobs := by
  apply turns_of_pure
    (fun fuel s => ∃ jobs, writeJobs w.inode ctx buf size offset fuel s = some jobs) h.writeTurn
  · intro s
    rw [writeJobs_zero]
    split_ifs with hs <;> simpa using hs
  · intro fuel s
    rw [writeJobs_succ, if_pos (hshown s)]
    split_ifs with hs
    · simpa using Or.inl hs
    · simpa using fun hzero => absurd hzero hs

end

end SeamlessStack.Entry

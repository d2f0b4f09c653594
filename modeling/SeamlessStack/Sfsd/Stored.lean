import SeamlessStack.Sfsd.Write

/-! What a request for a new extent stores. `write_update_extent` reports a failed `open` or `write`
by a positive number and a short one by the bytes it took, and `sstack_write` goes on with all of
them. -/
namespace SeamlessStack.Sfsd

open Lib

abbrev Bytes := List (BitVec 8)

/-- The bytes to write; `write` takes as many as it says, and the checksum is over those. -/
structure Carries (crc : Bytes → BitVec 32) (r : WriteRequest) (buffer : Bytes) : Prop where
  size : buffer.length = r.out.1.toNat
  short : ∀ n, r.wrote = .ok n → n ≤ buffer.length
  cksum : ∀ n, r.wrote = .ok n → r.crc = crc (buffer.take n)

def WriteRequest.written (r : WriteRequest) (buffer : Bytes) : Bytes :=
  match r.reopened, r.wrote with
  | .ok (), .ok n => if r.out.2 then buffer.take n else []
  | _, _ => []

def WriteRequest.cksum (r : WriteRequest) : BitVec 32 := if r.stat.2 then r.crc else 0

def storedInode (h : Host) (db : Db) (r : WriteRequest) : Option Inode :=
  match sstackWrite h db r with
  | .ok w => w.db r.inodeNo
  | .error _ => db r.inodeNo

/-- The stored inode is as before, or the request succeeded and it has one extent more, with all
bytes in the file and their checksum. -/
def StoresWritten (crc : Bytes → BitVec 32) (h : Host) (db : Db) (r : WriteRequest)
    (buffer : Bytes) : Prop :=
  storedInode h db r = db r.inodeNo ∨
    Returns (sstackWrite h db r) ∧ ∃ inode inode' e, db r.inodeNo = some inode ∧
      storedInode h db r = some inode' ∧ inode'.extents = inode.extents ++ [e] ∧
      r.written buffer = buffer ∧ e.cksum = crc (r.written buffer)

/-- The request comes as far as `put_inode`, with this inode. -/
structure ComesToPut (h : Host) (r : WriteRequest) (inode inode' : Inode) : Prop where
  inodeCache : r.inodeCache = true
  getInode : r.getInode = .found
  nameLen : r.nameLen = 0
  offset : r.offset = 0
  file : ∃ storage, createFile h r inode = .ok storage ∧
    updateInode h r { inode with numreplicas := 1 } storage = .ok inode'

/-- The request stores another inode than it has read: without a chunk only if that was bad. -/
structure StoresOther (h : Host) (r : WriteRequest) (inode : Inode) : Prop where
  inodeCache : r.inodeCache = true
  getInode : r.getInode = .found
  nameLen : r.nameLen = 0
  offset : r.offset = 0
  put : r.put = true
  changes : r.schedule = none ∧ (inode.numreplicas ≠ 1 ∨ inode.updateSize.size ≠ inode.size) ∨
    ∃ c storage, r.schedule = some c ∧ h.chunks[c]? = some storage ∧ r.created = true ∧
      ¬ (inode.locked = true ∧ h.blocks = true) ∧ Fits h storage inode r

/-- All bytes are in the file, and the checksum was set or that of no bytes is 0. -/
def WrittenWhole (crc : Bytes → BitVec 32) (r : WriteRequest) (buffer : Bytes) : Prop :=
  r.written buffer = buffer ∧ (r.stat.2 = true ∨ crc [] = 0)

section
variable {crc : Bytes → BitVec 32} {h : Host} {db : Db} {r : WriteRequest} {buffer : Bytes}
  {inode inode' : Inode}

theorem Carries.cksum_written (hc : Carries crc r buffer) (hstat : r.stat.2 = true) :
    r.crc = crc (r.written buffer) := by
  unfold WriteRequest.stat writeUpdateExtent at hstat
  unfold WriteRequest.written
  split at hstat
  · cases hstat
  rename_i hdata
  rw [Bool.not_eq_false] at hdata
  split at hstat
  · cases hstat
  · cases hstat
  · rename_i n hopen hwrote
    rw [hopen, hwrote]
    dsimp only
    rw [if_pos hdata]
    exact hc.cksum n hwrote

theorem written_eq_nil (hstat : r.stat.2 = false) : r.written buffer = [] := by
  unfold WriteRequest.stat writeUpdateExtent at hstat
  unfold WriteRequest.written
  split at hstat
  · rename_i hdata
    split
    · rw [hdata]
      rfl
    · rfl
  · split at hstat
    · rename_i hopen
      rw [hopen]
    · rename_i hopen hwrote
      rw [hopen, hwrote]
    · cases hstat

theorem Carries.cksum_iff (hc : Carries crc r buffer) :
    r.cksum = crc (r.written buffer) ↔ r.stat.2 = true ∨ crc [] = 0 := by
  unfold WriteRequest.cksum
  cases hstat : r.stat.2 with
  | true => simpa using hc.cksum_written hstat
  | false =>
    rw [written_eq_nil hstat, if_neg (by decide), or_iff_right (by decide)]
    exact eq_comm

theorem newExtent_fields {storage : Storage} {outSize : BitVec 64} {cksum : BitVec 32} {e : Extent}
    (he : newExtent storage inode r outSize cksum = some e) :
    e.cksum = cksum ∧ e.sizeOnDisk = outSize ∧ e.size = r.dataLen := by
  unfold newExtent at he
  dsimp only at he
  split at he
  · cases he
  split at he
  · split at he
    · obtain rfl := Option.some.inj he
      exact ⟨rfl, rfl, rfl⟩
    · cases he
  · obtain rfl := Option.some.inj he
    exact ⟨rfl, rfl, rfl⟩

theorem sstackWrite_db_iff (hn : db r.inodeNo = some inode) {db' : Db} :
    (∃ w, sstackWrite h db r = .ok w ∧ w.db = db') ↔
      ∃ inode', ComesToPut h r inode inode' ∧ putInode db r inode' = db' := by
  have hread : readInode db r.inodeNo .found = inode := by
    unfold readInode
    rw [hn]
    rfl
  constructor
  · rintro ⟨w, hw, rfl⟩
    unfold sstackWrite at hw
    obtain ⟨_, hcache, hw⟩ := bind_eq_ok.mp hw
    obtain ⟨_, hfound, hw⟩ := bind_eq_ok.mp hw
    obtain ⟨_, hname, hw⟩ := bind_eq_ok.mp hw
    obtain ⟨storage, hstorage, hw⟩ := bind_eq_ok.mp hw
    obtain ⟨_, hoffset, hw⟩ := bind_eq_ok.mp hw
    obtain ⟨_, -, hw⟩ := bind_eq_ok.mp hw
    obtain ⟨inode', hinode', hw⟩ := bind_eq_ok.mp hw
    obtain rfl := Except.ok.inj hw
    rw [hread] at hstorage hinode'
    exact ⟨inode', ⟨require_eq_ok.mp hcache, (require_eq_ok.mp hfound).2, require_eq_ok.mp hname,
      require_eq_ok.mp hoffset, storage, hstorage, hinode'⟩, rfl⟩
  · rintro ⟨inode', ⟨hcache, hfound, hname, hoffset, storage, hstorage, hinode'⟩, rfl⟩
    have hthere : db r.inodeNo ≠ none ∧ r.getInode = .found := ⟨by simp [hn], hfound⟩
    refine ⟨⟨r.stat.1, putInode db r inode', readInode (putInode db r inode') r.inodeNo r.reread⟩,
      ?_, rfl⟩
    unfold sstackWrite
    rw [require_bind_of hcache, require_bind_of hthere]
    dsimp only
    rw [require_bind_of hname, hread, hstorage, ok_bind, require_bind_of hoffset,
      require_bind_of (stat_nonneg r), hinode', ok_bind]
    rfl

theorem ComesToPut.extents (hp : ComesToPut h r inode inode') :
    r.schedule = none ∧ inode'.extents = inode.extents ∨
      r.schedule ≠ none ∧ ∃ e, inode'.extents = inode.extents ++ [e] ∧ e.cksum = r.cksum := by
  obtain ⟨storage, hstorage, hinode'⟩ := hp.file
  obtain ⟨hnone, rfl⟩ | ⟨c, chunk, hchunk, -, -, rfl⟩ := createFile_eq_ok.mp hstorage
  · obtain rfl := Except.ok.inj hinode'
    exact Or.inl ⟨hnone, rfl⟩
  · obtain ⟨added, hadd, hinode'⟩ := bind_eq_ok.mp hinode'
    obtain rfl := Except.ok.inj hinode'
    obtain ⟨-, -, -, e, hnew, rfl⟩ := addExtent_eq_ok.mp hadd
    exact Or.inr ⟨by simp [hchunk], e, rfl, (newExtent_fields hnew).1⟩

theorem storedInode_of_comesToPut (hn : db r.inodeNo = some inode)
    (hp : ComesToPut h r inode inode') :
    Returns (sstackWrite h db r) ∧
      storedInode h db r = if r.put then some inode' else some inode := by
  obtain ⟨w, hw, hdb⟩ := (sstackWrite_db_iff hn).mpr ⟨inode', hp, rfl⟩
  refine ⟨⟨w, hw⟩, ?_⟩
  unfold storedInode
  rw [hw]
  dsimp only
  rw [hdb]
  unfold putInode
  split_ifs
  · rw [Function.update_self]
  · exact hn

theorem storedInode_of_not (hn : db r.inodeNo = some inode)
    (hp : ∀ inode', ¬ ComesToPut h r inode inode') : storedInode h db r = db r.inodeNo := by
  unfold storedInode
  split
  · rename_i w hw
    obtain ⟨inode', hcomes, -⟩ := (sstackWrite_db_iff hn).mp ⟨w, hw, rfl⟩
    exact absurd hcomes (hp inode')
  · rfl

theorem addExtent_returns_iff (storage : Storage) (inode : Inode) (outSize : BitVec 64)
    (cksum : BitVec 32) :
    Returns (addExtent h storage inode r outSize cksum) ↔
      ¬ (inode.locked = true ∧ h.blocks = true) ∧ Fits h storage inode r := by
  constructor
  · rintro ⟨inode', hadd⟩
    obtain ⟨hwait, ⟨hrealloc, hroom⟩, hlog, e, hnew, -⟩ := addExtent_eq_ok.mp hadd
    exact ⟨hwait, hrealloc, hroom, hlog, newExtent_eq_some.mp ⟨e, hnew⟩⟩
  · rintro ⟨hwait, hrealloc, hroom, hlog, hnew⟩
    obtain ⟨e, he⟩ := newExtent_eq_some.mpr hnew
    exact ⟨_, addExtent_eq_ok.mpr ⟨hwait, ⟨hrealloc, hroom⟩, hlog, e, he, rfl⟩⟩

theorem storesOther_iff : StoresOther h r inode ↔
    r.put = true ∧ ∃ inode', ComesToPut h r inode inode' ∧ inode' ≠ inode := by
  constructor
  · rintro ⟨hcache, hfound, hname, hoffset, hput, hchanges⟩
    refine ⟨hput, ?_⟩
    obtain ⟨hnone, hne⟩ | ⟨c, storage, hc, hchunk, hcreated, hadds⟩ := hchanges
    · refine ⟨_, ⟨hcache, hfound, hname, hoffset, none, createFile_eq_ok.mpr (.inl ⟨hnone, rfl⟩),
        rfl⟩, ?_⟩
      intro hsame
      obtain hne | hne := hne
      · exact hne (congrArg Inode.numreplicas hsame).symm
      · have hsize := congrArg Inode.size hsame
        exact hne hsize
    · obtain ⟨added, hadd⟩ := (addExtent_returns_iff storage { inode with numreplicas := 1 }
        r.out.1 (if r.stat.2 then r.crc else 0)).mpr hadds
      have hp : ComesToPut h r inode added.updateSize := by
        refine ⟨hcache, hfound, hname, hoffset, some storage,
          createFile_eq_ok.mpr (.inr ⟨c, storage, hc, hchunk, hcreated, rfl⟩), ?_⟩
        exact bind_eq_ok.mpr ⟨added, hadd, rfl⟩
      refine ⟨_, hp, ?_⟩
      intro hsame
      obtain ⟨hnone, -⟩ | ⟨-, e, hextents, -⟩ := hp.extents
      · rw [hc] at hnone
        cases hnone
      · rw [hsame] at hextents
        exact absurd (congrArg List.length hextents) (by simp)
  · rintro ⟨hput, inode', ⟨hcache, hfound, hname, hoffset, storage, hfile, hupdate⟩, hne⟩
    refine ⟨hcache, hfound, hname, hoffset, hput, ?_⟩
    obtain ⟨hnone, rfl⟩ | ⟨c, chunk, hc, hchunk, hcreated, rfl⟩ := createFile_eq_ok.mp hfile
    · refine .inl ⟨hnone, ?_⟩
      by_contra hsame
      rw [not_or, not_not, not_not] at hsame
      obtain rfl := Except.ok.inj hupdate
      obtain ⟨locked, size, numreplicas, extents⟩ := inode
      obtain ⟨rfl, hsize⟩ := hsame
      exact hne (congrArg (fun size => Inode.mk locked size 1 extents) hsize)
    · obtain ⟨added, hadd, -⟩ := bind_eq_ok.mp hupdate
      exact .inr ⟨c, chunk, hc, hchunk, hcreated,
        (addExtent_returns_iff chunk { inode with numreplicas := 1 } _ _).mp ⟨added, hadd⟩⟩

/-- What is stored is right exactly when a request that stores another inode has created an extent
and written it whole. -/
theorem storesWritten_iff (hn : db r.inodeNo = some inode) (hc : Carries crc r buffer) :
    StoresWritten crc h db r buffer ↔
      (StoresOther h r inode → r.schedule ≠ none ∧ WrittenWhole crc r buffer) := by
  rw [storesOther_iff]
  constructor
  · rintro hs ⟨hput, inode', hp, hne⟩
    obtain ⟨-, hstored⟩ := storedInode_of_comesToPut hn hp
    rw [if_pos hput] at hstored
    obtain hsame | ⟨-, old, new, e, hold, hnew, hextents, hwritten, hcksum⟩ := hs
    · rw [hstored, hn] at hsame
      exact absurd (Option.some.inj hsame) hne
    · obtain rfl := Option.some.inj (hn.symm.trans hold)
      obtain rfl := Option.some.inj (hstored.symm.trans hnew)
      obtain ⟨-, hnone⟩ | ⟨hsome, e', hextents', hcksum'⟩ := hp.extents
      · rw [hnone] at hextents
        exact absurd (congrArg List.length hextents) (by simp)
      · rw [hextents'] at hextents
        obtain rfl : e' = e := by simpa using hextents
        refine ⟨hsome, hwritten, ?_⟩
        rw [hcksum'] at hcksum
        exact hc.cksum_iff.mp hcksum
  · intro hright
    by_cases hp : ∃ inode', ComesToPut h r inode inode'
    · obtain ⟨inode', hp⟩ := hp
      obtain ⟨hreturns, hstored⟩ := storedInode_of_comesToPut hn hp
      by_cases hput : r.put = true
      · by_cases hne : inode' = inode
        · left
          rw [hstored, if_pos hput, hn, hne]
        · right
          obtain ⟨hsome, hwritten, hset⟩ := hright ⟨hput, inode', hp, hne⟩
          obtain ⟨hnone, -⟩ | ⟨-, e, hextents, hcksum⟩ := hp.extents
          · exact absurd hnone hsome
          · refine ⟨hreturns, inode, inode', e, hn, ?_, hextents, hwritten, ?_⟩
            · rw [hstored, if_pos hput]
            · rw [hcksum]
              exact hc.cksum_iff.mpr hset
      · left
        rw [hstored, if_neg hput, hn]
    · left
      exact storedInode_of_not hn fun inode' hcomes => hp ⟨inode', hcomes⟩

end

/-- Five bytes that are written whole. -/
theorem storesWritten_iff_whole :
    Carries (fun _ => 7) (goodRequest 2 5 0 10) (List.replicate 5 1) ∧
    StoresWritten (fun _ => 7) (oneChunk true) emptyInodes.db (goodRequest 2 5 0 10)
      (List.replicate 5 1) := by
  have hc : Carries (fun _ => 7) (goodRequest 2 5 0 10) (List.replicate 5 1) := by
    refine ⟨rfl, ?_, fun _ _ => rfl⟩
    intro n hn
    obtain rfl : 5 = n := Except.ok.inj hn
    exact le_refl 5
  have hn : emptyInodes.db (goodRequest 2 5 0 10).inodeNo = some emptyInode := rfl
  refine ⟨hc, (storesWritten_iff hn hc).mpr ?_⟩
  intro _
  exact ⟨by decide, rfl, Or.inl rfl⟩

def unopened : WriteRequest :=
  { goodRequest 2 5 0 10 with reopened := .error 13, wrote := .error 13 }

def shortWrite : WriteRequest := { goodRequest 2 5 0 10 with wrote := .ok 2 }

/-- In both cases the request succeeds, and the extent is stored. -/
theorem storesWritten_misses :
    Returns (sstackWrite (oneChunk true) emptyInodes.db unopened) ∧
    Returns (sstackWrite (oneChunk true) emptyInodes.db shortWrite) ∧
    ∀ crc : Bytes → BitVec 32,
      Carries crc unopened (List.replicate 5 1) ∧
      ¬ StoresWritten crc (oneChunk true) emptyInodes.db unopened (List.replicate 5 1) ∧
      ¬ StoresWritten crc (oneChunk true) emptyInodes.db shortWrite (List.replicate 5 1) := by
  have hchanged : ∀ r ∈ [unopened, shortWrite],
      storedInode (oneChunk true) emptyInodes.db r ≠ emptyInodes.db r.inodeNo := by decide +kernel
  refine ⟨⟨_, rfl⟩, ⟨_, rfl⟩, ?_⟩
  intro crc
  refine ⟨⟨rfl, ?_, ?_⟩, ?_, ?_⟩
  · intro n hn
    cases hn
  · intro n hn
    cases hn
  · rintro (hsame | ⟨-, _, _, _, -, -, -, hwritten, -⟩)
    · exact hchanged unopened (by simp) hsame
    · cases hwritten
  · rintro (hsame | ⟨-, _, _, _, -, -, -, hwritten, -⟩)
    · exact hchanged shortWrite (by simp) hsame
    · cases hwritten

end SeamlessStack.Sfsd

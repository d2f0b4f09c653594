import SeamlessStack.Sfsd.Write

/-! `i_lock` over a sequence of requests. `sstack_write` locks it and never unlocks it, and the
lock is stored with the inode. -/
namespace SeamlessStack.Sfsd

open Lib

def Unlocked (db : Db) : Prop := ∀ n inode, db n = some inode → inode.locked = false

/-- The request returns, and leaves `i_lock` unlocked in its own inode and in the stored ones. -/
def LockFree (h : Host) (db : Db) (r : WriteRequest) : Prop :=
  match sstackWrite h db r with
  | .ok w => w.memory.locked = false ∧ Unlocked w.db
  | .error (.failed memory) => (∀ inode ∈ memory, inode.locked = false) ∧ Unlocked db
  | .error _ => False

/-- The request ends before it locks the inode, or the locked inode is not stored. -/
def KeepsOut (h : Host) (db : Db) (r : WriteRequest) : Prop :=
  r.inodeCache = false ∨ db r.inodeNo = none ∨ r.getInode ≠ .found ∨
    r.nameLen = 0 ∧
      (r.schedule = none ∧ r.offset = 0 ∨
        ∃ c storage, r.schedule = some c ∧ h.chunks[c]? = some storage ∧
          (r.created = false ∨
            r.offset = 0 ∧ r.put = false ∧ ∃ inode ∈ db r.inodeNo, Fits h storage inode r))

section
variable {h : Host} {db : Db} {r : WriteRequest}

theorem readInode_unlocked (hclear : Unlocked db) (n : ℕ) (result : GetResult) :
    (readInode db n result).locked = false := by
  have hstored : ((db n).getD emptyInode).locked = false := by
    cases hn : db n with
    | none => rfl
    | some inode => exact hclear n inode hn
  cases result with
  | found => exact hstored
  | missing => rfl
  | nomem => exact hstored

variable {inode : Inode}

theorem putInode_unlocked (hclear : Unlocked db) (hinode : inode.locked = false) :
    Unlocked (putInode db r inode) := by
  unfold putInode
  split
  · intro n other hn
    rw [Function.update_apply] at hn
    split at hn
    · obtain rfl := Option.some.inj hn
      exact hinode
    · exact hclear n other hn
  · exact hclear

theorem lockFree_of_failed (hclear : Unlocked db) {memory : Option Inode}
    (hw : sstackWrite h db r = .error (.failed memory))
    (hmemory : ∀ inode ∈ memory, inode.locked = false) : LockFree h db r := by
  unfold LockFree
  rw [hw]
  exact ⟨hmemory, hclear⟩

theorem not_lockFree_of_undefined (hw : sstackWrite h db r = .error .undefined) :
    ¬ LockFree h db r := by
  unfold LockFree
  rw [hw]
  exact not_false

theorem addExtent_unlocked (h : Host) (r : WriteRequest) (storage : Storage)
    (hlocked : inode.locked = false) (outSize : BitVec 64) (cksum : BitVec 32) :
    ¬ Fits h storage inode r ∧
      (addExtent h storage inode r outSize cksum =
        .error (.failed (some { inode with locked := true })) ∨
        addExtent h storage inode r outSize cksum = .error .undefined) ∨
    Fits h storage inode r ∧ ∃ e, addExtent h storage inode r outSize cksum =
      .ok { inode with locked := true, extents := inode.extents ++ [e] } := by
  unfold addExtent Fits
  rw [if_neg (by simp [hlocked])]
  by_cases hroom : r.realloc = false ∨ 2 ^ 31 ≤ inode.extents.length + 1
  · refine Or.inl ⟨?_, Or.inl (if_pos hroom)⟩
    rintro ⟨hrealloc, hlt, -⟩
    obtain hroom | hroom := hroom
    · rw [hroom] at hrealloc
      cases hrealloc
    · omega
  · rw [if_neg hroom]
    rw [not_or, Bool.not_eq_false] at hroom
    by_cases hlog : Log.sfsDebug ≤ h.ctx ∧ inode.size ≠ 0
    · exact Or.inl ⟨fun hfits => hlog.2 (hfits.2.2.1 hlog.1), Or.inr (if_pos hlog)⟩
    rw [if_neg hlog]
    rw [not_and, not_not] at hlog
    cases hnew : newExtent storage inode r outSize cksum with
    | none =>
      refine Or.inl ⟨?_, Or.inr rfl⟩
      rintro ⟨-, -, -, hfits⟩
      obtain ⟨e, he⟩ := newExtent_eq_some.mpr hfits
      rw [hnew] at he
      cases he
    | some e =>
      exact Or.inr ⟨⟨hroom.1, by omega, hlog, newExtent_eq_some.mp ⟨e, hnew⟩⟩, e, rfl⟩

theorem sstackWrite_of_found (hcache : r.inodeCache = true)
    (hinode : db r.inodeNo = some inode) (hget : r.getInode = .found) (hname : r.nameLen = 0) :
    sstackWrite h db r = (do
      let storage ← createFile h r inode
      require (r.offset = 0) .undefined
      require (0 ≤ r.stat.1) (.failed (some inode))
      let stored ← updateInode h r { inode with numreplicas := 1 } storage
      return ⟨r.stat.1, putInode db r stored,
        readInode (putInode db r stored) r.inodeNo r.reread⟩) := by
  have hread : readInode db r.inodeNo .found = inode := by
    unfold readInode
    rw [hinode]
    rfl
  unfold sstackWrite
  rw [require_bind_of hcache, require_bind_of ⟨by rw [hinode]; simp, hget⟩, require_bind_of hname,
    hread]

/-- A request for which a chunk was scheduled and its file created gets to the lock. -/
theorem lockFree_created (hclear : Unlocked db) {storage : Storage}
    (hfile : createFile h r inode = .ok (some storage)) (hcache : r.inodeCache = true)
    (hinode : db r.inodeNo = some inode) (hget : r.getInode = .found) (hname : r.nameLen = 0)
    (hoffset : r.offset = 0) : LockFree h db r ↔ r.put = false ∧ Fits h storage inode r := by
  have hwrite : sstackWrite h db r = (do
      let stored ← addExtent h storage { inode with numreplicas := 1 } r r.out.1
        (if r.stat.2 then r.crc else 0)
      return ⟨r.stat.1, putInode db r stored.updateSize,
        readInode (putInode db r stored.updateSize) r.inodeNo r.reread⟩) := by
    rw [sstackWrite_of_found hcache hinode hget hname, hfile]
    change (require (r.offset = 0) Stop.undefined >>= _) = _
    rw [require_bind_of hoffset, require_bind_of (stat_nonneg r)]
    unfold updateInode
    rw [bind_assoc]
    rfl
  have hunlocked : inode.locked = false := hclear _ _ hinode
  have hlocked : ({ inode with numreplicas := 1 } : Inode).locked = false := hunlocked
  unfold LockFree
  rw [hwrite]
  obtain ⟨hfits, hadd | hadd⟩ | ⟨hfits, e, hadd⟩ := addExtent_unlocked h r storage hlocked
    r.out.1 (if r.stat.2 then r.crc else 0)
  · rw [hadd]
    refine iff_of_false ?_ (fun hright => hfits hright.2)
    rintro ⟨hmemory, -⟩
    exact absurd (hmemory _ rfl) (by simp)
  · rw [hadd]
    exact iff_of_false id (fun hright => hfits hright.2)
  · rw [hadd]
    change (_ ∧ _) ↔ _
    dsimp only
    cases hput : r.put with
    | true =>
      refine iff_of_false ?_ (by simp)
      rintro ⟨-, hstored⟩
      have := hstored r.inodeNo _ (by rw [putInode, if_pos hput, Function.update_self])
      exact absurd this (by simp [Inode.updateSize])
    | false =>
      have hdb : ∀ stored, putInode db r stored = db := fun stored => by
        rw [putInode, hput]
        rfl
      rw [hdb]
      exact iff_of_true ⟨readInode_unlocked hclear _ _, hclear⟩ ⟨rfl, hfits⟩

/-- Without a chunk the inode is stored as it was. -/
theorem lockFree_unscheduled (hclear : Unlocked db) (hc : r.schedule = none)
    (hcache : r.inodeCache = true) (hinode : db r.inodeNo = some inode)
    (hget : r.getInode = .found) (hname : r.nameLen = 0) (hoffset : r.offset = 0) :
    LockFree h db r := by
  have hfile : createFile h r inode = .ok none := createFile_eq_ok.mpr (Or.inl ⟨hc, rfl⟩)
  have hunlocked : inode.locked = false := hclear _ _ hinode
  have hsame : (Inode.updateSize { inode with numreplicas := 1 }).locked = false := hunlocked
  have hstored := putInode_unlocked (r := r) hclear hsame
  unfold LockFree
  rw [sstackWrite_of_found hcache hinode hget hname, hfile]
  change (match (require (r.offset = 0) Stop.undefined >>= _ : Except Stop Written) with
    | .ok w => _ | .error (.failed memory) => _ | .error _ => _)
  rw [require_bind_of hoffset, require_bind_of (stat_nonneg r)]
  exact ⟨readInode_unlocked hstored _ _, hstored⟩

theorem lockFree_found (hclear : Unlocked db) (hcache : r.inodeCache = true)
    (hinode : db r.inodeNo = some inode) (hget : r.getInode = .found) (hname : r.nameLen = 0) :
    LockFree h db r ↔ r.schedule = none ∧ r.offset = 0 ∨
      ∃ c storage, r.schedule = some c ∧ h.chunks[c]? = some storage ∧
        (r.created = false ∨
          r.offset = 0 ∧ r.put = false ∧ ∃ inode ∈ db r.inodeNo, Fits h storage inode r) := by
  have hstart := sstackWrite_of_found (h := h) hcache hinode hget hname
  cases hfile : createFile h r inode with
  | error stop =>
    rw [hfile] at hstart
    have hstart : sstackWrite h db r = .error stop := hstart
    unfold createFile at hfile
    cases hc : r.schedule with
    | none =>
      rw [hc] at hfile
      cases hfile
    | some c =>
      rw [hc] at hfile
      dsimp only at hfile
      cases hchunk : h.chunks[c]? with
      | none =>
        rw [hchunk] at hfile
        obtain rfl := Except.error.inj hfile
        exact iff_of_false (not_lockFree_of_undefined hstart) (by simp [hchunk])
      | some storage =>
        rw [hchunk] at hfile
        dsimp only at hfile
        split at hfile
        · cases hfile
        · rename_i hcreated
          obtain rfl := Except.error.inj hfile
          refine iff_of_true (lockFree_of_failed hclear hstart ?_)
            (Or.inr ⟨c, storage, rfl, hchunk, Or.inl (by simpa using hcreated)⟩)
          rintro other hother
          rw [← Option.some.inj hother]
          exact hclear _ _ hinode
  | ok storage =>
    by_cases hoffset : r.offset = 0
    · obtain ⟨hc, rfl⟩ | ⟨c, chunk, hc, hchunk, hcreated, rfl⟩ := createFile_eq_ok.mp hfile
      · exact iff_of_true (lockFree_unscheduled hclear hc hcache hinode hget hname hoffset)
          (Or.inl ⟨hc, hoffset⟩)
      · rw [lockFree_created hclear hfile hcache hinode hget hname hoffset]
        simp [hc, hchunk, hcreated, hoffset, hinode]
    · rw [hfile] at hstart
      refine iff_of_false (not_lockFree_of_undefined ?_) ?_
      · rw [hstart]
        exact require_bind_of_not hoffset _
      · rintro (⟨-, hzero⟩ | ⟨c, chunk, hc, hchunk, hcreated | ⟨hzero, -⟩⟩)
        · exact hoffset hzero
        · obtain ⟨hnone, -⟩ | ⟨-, -, -, -, htrue, -⟩ := createFile_eq_ok.mp hfile
          · rw [hnone] at hc
            cases hc
          · rw [hcreated] at htrue
            cases htrue
        · exact hoffset hzero

theorem lockFree_iff (hclear : Unlocked db) : LockFree h db r ↔ KeepsOut h db r := by
  unfold KeepsOut
  by_cases hcache : r.inodeCache = true
  swap
  · have hw : sstackWrite h db r = .error (.failed none) := require_bind_of_not hcache _
    exact iff_of_true (lockFree_of_failed hclear hw (by simp)) (Or.inl (by simpa using hcache))
  by_cases hfound : db r.inodeNo ≠ none ∧ r.getInode = .found
  swap
  · have hw : sstackWrite h db r =
        .error (.failed (some (readInode db r.inodeNo r.getInode))) := by
      unfold sstackWrite
      rw [require_bind_of hcache, require_bind_of_not hfound]
    refine iff_of_true (lockFree_of_failed hclear hw ?_) (Or.inr ?_)
    · rintro inode hinode
      rw [← Option.some.inj hinode]
      exact readInode_unlocked hclear _ _
    · by_cases hnone : db r.inodeNo = none
      · exact Or.inl hnone
      · exact Or.inr (Or.inl fun hget => hfound ⟨hnone, hget⟩)
  obtain ⟨inode, hinode⟩ := Option.ne_none_iff_exists'.mp hfound.1
  have hskip : r.inodeCache ≠ false ∧ db r.inodeNo ≠ none ∧ ¬ r.getInode ≠ .found :=
    ⟨by simpa using hcache, hfound.1, fun hne => hne hfound.2⟩
  rw [or_iff_right hskip.1, or_iff_right hskip.2.1, or_iff_right hskip.2.2]
  by_cases hname : r.nameLen = 0
  · rw [and_iff_right hname]
    exact lockFree_found hclear hcache hinode hfound.2 hname
  · refine iff_of_false (not_lockFree_of_undefined ?_) (fun hright => hname hright.1)
    unfold sstackWrite
    rw [require_bind_of hcache, require_bind_of hfound, require_bind_of_not hname]

end

theorem reach_unlocked {h : Host} {s : WriteUse}
    (hr : (writeSystem h).Reach (fun s r => KeepsOut h s.db r) s) : Unlocked s.db := by
  apply hr.invariant (I := fun s => Unlocked s.db)
  · intro s hs n inode hn
    exact (hs.1 n inode hn).2.2
  · intro s r t _ hclear hkeeps ht
    have hfree := (lockFree_iff hclear).mpr hkeeps
    have ht : writeStep h s r = some t := ht
    unfold LockFree at hfree
    unfold writeStep at ht
    split at ht
    · rename_i w hw
      rw [hw] at hfree
      rw [← Option.some.inj ht]
      exact hfree.2
    · rw [← Option.some.inj ht]
      exact hclear
    · cases ht

/-- While requests kept the locked inode out of the database, the next one leaves `i_lock` unlocked
exactly if it does so too. -/
theorem inodeLock_free_iff {h : Host} {s : WriteUse}
    (hr : (writeSystem h).Reach (fun s r => KeepsOut h s.db r) s) (r : WriteRequest) :
    LockFree h s.db r ↔ KeepsOut h s.db r :=
  lockFree_iff (reach_unlocked hr)

theorem inodeLock_free_iff_noPut :
    LockFree (oneChunk true) emptyInodes.db { goodRequest 2 5 0 10 with put := false } := by
  have hr : (writeSystem (oneChunk true)).Reach (fun s r => KeepsOut (oneChunk true) s.db r)
      emptyInodes := .init (emptyInodes_init _)
  refine (inodeLock_free_iff hr _).mpr (Or.inr (Or.inr (Or.inr ⟨rfl, Or.inr ⟨0, _, rfl, rfl, ?_⟩⟩)))
  refine Or.inr ⟨rfl, rfl, emptyInode, rfl, rfl, by decide, fun _ => rfl, rfl, by decide, ?_⟩
  intro hsize
  exact absurd rfl hsize

/-- After a request that succeeds, the next for the same inode waits for a lock nobody holds. -/
theorem inodeLock_waits : ∃ s, (writeSystem (oneChunk true)).Reach System.AnyStep s ∧
    (∃ inode, s.db 2 = some inode ∧ inode.locked = true) ∧
    sstackWrite (oneChunk true) s.db (goodRequest 2 3 0 11) = .error .waits := by
  refine System.exists_reach [goodRequest 2 5 0 10] (emptyInodes_init _) ?_
  exact ⟨_, rfl, ⟨_, rfl, rfl⟩, rfl⟩

end SeamlessStack.Sfsd

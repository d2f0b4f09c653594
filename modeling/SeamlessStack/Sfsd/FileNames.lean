import SeamlessStack.Sfsd.Handle

/-! The local files of the new extents (`sstack_write` in `sfsd_ops.c`, `sfsd_chunk_schedule_rr` in
`sfsd_chunk.c`): a file is named after the mount point of the scheduled chunk and the second of the
clock, and is opened without `O_EXCL`. -/
namespace SeamlessStack.Sfsd

open Lib Function

/-- With its static counter, which is divided as an unsigned number. -/
def sfsdChunkScheduleRr (numChunks : ℕ) (nextScheduled : BitVec 32) : Option ℕ × BitVec 32 :=
  if numChunks = 0 then (none, nextScheduled)
  else (some (nextScheduled.toNat % numChunks), nextScheduled + 1)

/-- No file belongs to two extents, of one inode or of two. -/
def DistinctFiles (files : ℕ → List Name) : Prop :=
  ∀ n m j k : ℕ, ∀ file, (files n)[j]? = some file → (files m)[k]? = some file → n = m ∧ j = k

def fileKey (storage : Storage) (time : ℕ) : Name × ℕ := (storage.mountPoint, time % 2 ^ 32)

def WriteRequest.key (h : Host) (r : WriteRequest) : Option (Name × ℕ) :=
  (r.schedule.bind (h.chunks[·]?)).map (fileKey · r.time)

/-- The keys of the extents that a run of requests stores. -/
def storedKeys (h : Host) : WriteUse → List WriteRequest → List (Name × ℕ)
  | _, [] => []
  | s, r :: rs =>
    match sstackWrite h s.db r with
    | .ok w => (if r.put then (r.key h).toList else []) ++
        storedKeys h ⟨w.db, recordFile h s.files r⟩ rs
    | .error (.failed _) => storedKeys h s rs
    | .error _ => []

def keyName (key : Name × ℕ) : Name :=
  key.1 ++ '/' :: (Nat.toDigits 10 key.2 ++ ['-', 'X', 'X', 'X', 'X', 'X', 'X'])

/-- The mount point may hold slashes, so the name is read from its end. -/
theorem keyName_injective : Injective keyName := by
  intro key key' h
  have htail (n : ℕ) :
      '/' ∉ (Nat.toDigits 10 n ++ ['-', 'X', 'X', 'X', 'X', 'X', 'X']).reverse := by
    rw [List.mem_reverse, List.mem_append, not_or]
    exact ⟨notMem_toDigits (by decide) (by decide) (by decide), by decide⟩
  have hreverse (key : Name × ℕ) : (keyName key).reverse =
      (Nat.toDigits 10 key.2 ++ ['-', 'X', 'X', 'X', 'X', 'X', 'X']).reverse ++
        '/' :: key.1.reverse := by
    unfold keyName
    rw [List.reverse_append, List.reverse_cons, List.append_assoc]
    rfl
  have hkeys := congrArg List.reverse h
  rw [hreverse, hreverse, append_separator_inj (htail _) (htail _)] at hkeys
  obtain ⟨hsecond, hmount⟩ := hkeys
  have hdigits := List.append_cancel_right (List.reverse_injective hsecond)
  exact Prod.ext (List.reverse_injective hmount) (toDigits_ten_injective hdigits)

variable {files : ℕ → List Name}

theorem distinctFiles_snoc {n : ℕ} {new : Name} :
    DistinctFiles (update files n (files n ++ [new])) ↔
      DistinctFiles files ∧ ∀ m, new ∉ files m := by
  have hold (m j : ℕ) (file : Name) (hfile : (files m)[j]? = some file) :
      (update files n (files n ++ [new]) m)[j]? = some file := by
    rw [update_apply]
    split
    · rename_i hmn
      rw [← hmn, List.getElem?_append_left (List.getElem?_eq_some_iff.mp hfile).1]
      exact hfile
    · exact hfile
  have hnew : (update files n (files n ++ [new]) n)[(files n).length]? = some new := by
    rw [update_self]
    exact List.getElem?_concat_length
  constructor
  · intro hd
    constructor
    · intro m m' j k file hj hk
      exact hd m m' j k file (hold m j file hj) (hold m' k file hk)
    · intro m hmem
      obtain ⟨j, hj⟩ := List.mem_iff_getElem?.mp hmem
      obtain ⟨rfl, hlast⟩ := hd m n j _ new (hold m j new hj) hnew
      have hlt := (List.getElem?_eq_some_iff.mp hj).1
      omega
  · rintro ⟨hd, hunused⟩ m m' j k file hj hk
    obtain hj' | ⟨rfl, rfl, rfl⟩ := mem_files_update hj
    · obtain hk' | ⟨-, -, rfl⟩ := mem_files_update hk
      · exact hd m m' j k file hj' hk'
      · exact absurd (List.mem_of_getElem? hj') (hunused m)
    · obtain hk' | ⟨rfl, rfl, -⟩ := mem_files_update hk
      · exact absurd (List.mem_of_getElem? hk') (hunused m')
      · exact ⟨rfl, rfl⟩

/-- The recorded files are those of the keys, and no two are the same exactly if no two keys are. -/
structure NamedBy (files : ℕ → List Name) (keys : List (Name × ℕ)) : Prop where
  mem : ∀ key, (∃ n, keyName key ∈ files n) ↔ key ∈ keys
  distinct : DistinctFiles files ↔ keys.Nodup

variable {keys : List (Name × ℕ)}

theorem NamedBy.snoc (hk : NamedBy files keys)
    (n : ℕ) (key : Name × ℕ) :
    NamedBy (update files n (files n ++ [keyName key])) (keys ++ [key]) where
  mem := by
    intro other
    rw [List.mem_append, List.mem_singleton, ← hk.mem]
    constructor
    · rintro ⟨m, hm⟩
      obtain ⟨j, hj⟩ := List.mem_iff_getElem?.mp hm
      obtain hj | ⟨-, -, hname⟩ := mem_files_update hj
      · exact Or.inl ⟨m, List.mem_of_getElem? hj⟩
      · exact Or.inr (keyName_injective hname)
    · rintro (⟨m, hm⟩ | rfl)
      · by_cases hmn : m = n
        · subst hmn
          exact ⟨m, by rw [update_self]; exact List.mem_append_left _ hm⟩
        · exact ⟨m, by rwa [update_of_ne hmn]⟩
      · exact ⟨n, by rw [update_self]; exact List.mem_append_right _ List.mem_cons_self⟩
  distinct := by
    have hunused : (∀ m, keyName key ∉ files m) ↔ key ∉ keys := by
      rw [← hk.mem, not_exists]
    rw [distinctFiles_snoc, hk.distinct, hunused, List.nodup_append', List.disjoint_singleton]
    simp

theorem NamedBy.recordFile {h : Host} (hk : NamedBy files keys) (r : WriteRequest) :
    NamedBy (recordFile h files r) (keys ++ if r.put then (r.key h).toList else []) := by
  unfold Sfsd.recordFile WriteRequest.key
  cases r.schedule.bind fun c => h.chunks[c]? with
  | none => simpa using hk
  | some storage =>
    dsimp only
    split
    · exact hk.snoc r.inodeNo (fileKey storage r.time)
    · simpa using hk

variable {s t : WriteUse}

theorem NamedBy.run {h : Host} {rs : List WriteRequest}
    (hk : NamedBy s.files keys) (hrun : (writeSystem h).run System.AnyStep s rs = some t) :
    NamedBy t.files (keys ++ storedKeys h s rs) := by
  induction rs generalizing s keys with
  | nil =>
    obtain rfl : s = t := Option.some.inj hrun
    simpa [storedKeys] using hk
  | cons r rs ih =>
    obtain ⟨u, hu, hrun⟩ := Option.bind_eq_some_iff.mp ((if_pos trivial).symm.trans hrun)
    change writeStep h s r = some u at hu
    unfold writeStep at hu
    unfold storedKeys
    cases hw : sstackWrite h s.db r with
    | ok w =>
      rw [hw] at hu
      obtain rfl := Option.some.inj hu
      dsimp only
      rw [← List.append_assoc]
      exact ih (hk.recordFile r) hrun
    | error stop =>
      rw [hw] at hu
      cases stop with
      | failed status =>
        obtain rfl := Option.some.inj hu
        exact ih hk hrun
      | _ => cases hu

theorem NamedBy.init {h : Host} (hs : (writeSystem h).init s) :
    NamedBy s.files [] where
  mem := by simp [hs.2]
  distinct := by simp [hs.2, DistinctFiles]

theorem reach_filePerExtent {h : Host} (hr : (writeSystem h).Reach System.AnyStep s) :
    FilePerExtent s := by
  apply hr.invariant
  · intro s hs
    exact filePerExtent_init hs
  · intro s r t _ hlen _ ht
    obtain rfl | ⟨inode, hn, rfl | ⟨c, storage, outSize, cksum, e, -, -, -, rfl⟩⟩ :=
      writeStep_cases ht
    · exact hlen
    · exact hlen.again hn rfl
    · exact hlen.snoc hn rfl _

/-- The extents have files of their own exactly if each request that stored one was given another
chunk or another second. -/
theorem distinctFiles_iff {h : Host} {rs : List WriteRequest}
    (hs : (writeSystem h).init s) (hrun : (writeSystem h).run System.AnyStep s rs = some t) :
    (∀ n inode, t.db n = some inode → (t.files n).length = inode.extents.length) ∧
      (DistinctFiles t.files ↔ (storedKeys h s rs).Nodup) := by
  constructor
  · exact reach_filePerExtent ((System.Reach.init hs).run hrun)
  · have hnamed := (NamedBy.init hs).run hrun
    exact hnamed.distinct

theorem distinctFiles_iff_later : ∃ t, (writeSystem (oneChunk false)).run System.AnyStep emptyInodes
      [goodRequest 2 5 0 10, goodRequest 3 5 0 11] = some t ∧ DistinctFiles t.files := by
  obtain ⟨t, hrun⟩ : ∃ t, (writeSystem (oneChunk false)).run System.AnyStep emptyInodes
      [goodRequest 2 5 0 10, goodRequest 3 5 0 11] = some t := ⟨_, rfl⟩
  refine ⟨t, hrun, ?_⟩
  rw [(distinctFiles_iff (emptyInodes_init (oneChunk false)) hrun).2]
  decide

/-- Two requests in one second, with one chunk: the inodes 2 and 3 have the same file. -/
theorem distinctFiles_sameSecond : ∃ t,
    (writeSystem (oneChunk false)).run System.AnyStep emptyInodes
      [goodRequest 2 5 0 10, goodRequest 3 5 0 10] = some t ∧
    (∃ inode inode', t.db 2 = some inode ∧ t.db 3 = some inode' ∧ inode.extents.length = 1 ∧
      inode'.extents.length = 1) ∧
    (t.files 2)[0]? = (t.files 3)[0]? ∧ ¬ DistinctFiles t.files := by
  refine ⟨_, rfl, ⟨_, _, rfl, rfl, rfl, rfl⟩, rfl, ?_⟩
  intro hd
  have hsame := hd 2 3 0 0 _ rfl rfl
  exact absurd hsame.1 (by decide)

section RoundRobin
variable {h : Host} {rs : List WriteRequest}

/-- Each of the requests gets its chunk from the scheduler, one after the other. -/
def RoundRobin (numChunks : ℕ) : BitVec 32 → List WriteRequest → Prop
  | _, [] => True
  | next, r :: rs => r.schedule = (sfsdChunkScheduleRr numChunks next).1 ∧
      RoundRobin numChunks (sfsdChunkScheduleRr numChunks next).2 rs

variable {r : WriteRequest}

theorem RoundRobin.schedule {numChunks : ℕ} {next : BitVec 32} (hpos : numChunks ≠ 0)
    (hrr : RoundRobin numChunks next rs) (hlen : next.toNat + rs.length < 2 ^ 32) {i : ℕ}
    (hr : rs[i]? = some r) :
    r.schedule = some ((next.toNat + i) % numChunks) := by
  induction rs generalizing next i with
  | nil => cases hr
  | cons first rs ih =>
    obtain ⟨hfirst, hrest⟩ := hrr
    unfold sfsdChunkScheduleRr at hfirst hrest
    rw [if_neg hpos] at hfirst hrest
    cases i with
    | zero =>
      obtain rfl := Option.some.inj hr
      exact hfirst
    | succ i =>
      rw [List.length_cons] at hlen
      have hnext : (next + 1).toNat = next.toNat + 1 := by
        rw [BitVec.toNat_add]
        exact Nat.mod_eq_of_lt (by change next.toNat + 1 < 2 ^ 32; omega)
      have hscheduled := ih hrest (by rw [hnext]; omega) hr
      rw [hscheduled, hnext, Nat.add_assoc, Nat.add_comm 1 i]

theorem key_eq_some {key : Name × ℕ} (hkey : r.key h = some key) :
    ∃ c storage, r.schedule = some c ∧ h.chunks[c]? = some storage ∧
      fileKey storage r.time = key := by
  obtain ⟨storage, hstorage, rfl⟩ := Option.map_eq_some_iff.mp hkey
  obtain ⟨c, hc, hchunk⟩ := Option.bind_eq_some_iff.mp hstorage
  exact ⟨c, storage, hc, hchunk, rfl⟩

theorem storedKeys_sublist (h : Host) (s : WriteUse) (rs : List WriteRequest) :
    (storedKeys h s rs).Sublist (rs.filterMap (·.key h)) := by
  fun_induction storedKeys h s rs with
  | case1 => exact List.Sublist.refl _
  | case2 s r rs w hw ih =>
    have hone : [r].filterMap (·.key h) = (r.key h).toList := by
      cases hkey : r.key h <;> simp [hkey]
    rw [← List.singleton_append, List.filterMap_append, hone]
    refine List.Sublist.append ?_ ih
    split
    · exact List.Sublist.refl _
    · exact List.nil_sublist _
  | case3 s r rs status hw ih => exact ih.trans ((List.sublist_cons_self r rs).filterMap _)
  | case4 => exact List.nil_sublist _

/-- One mount point is one chunk, and the round robin comes back to it after a whole round. -/
theorem RoundRobin.spacing (hrr : RoundRobin h.chunks.length 0 rs) (hlen : rs.length < 2 ^ 31)
    (hmount : (h.chunks.map (·.mountPoint)).Nodup) {i j : ℕ} (hij : i < j) {r' : WriteRequest}
    (hr : rs[i]? = some r) (hr' : rs[j]? = some r') {key key' : Name × ℕ}
    (hkey : r.key h = some key) (hkey' : r'.key h = some key') (hsame : key.1 = key'.1) :
    i + h.chunks.length ≤ j := by
  obtain ⟨c, storage, hc, hchunk, rfl⟩ := key_eq_some hkey
  obtain ⟨c', storage', hc', hchunk', rfl⟩ := key_eq_some hkey'
  have hpoint : storage.mountPoint = storage'.mountPoint := hsame
  have hclt := (List.getElem?_eq_some_iff.mp hchunk).1
  have hcc : c = c' := by
    apply (List.getElem?_inj (by rwa [List.length_map]) hmount).mp
    rw [List.getElem?_map, List.getElem?_map, hchunk, hchunk', Option.map_some, Option.map_some,
      hpoint]
  have hscheduled {l : ℕ} {r : WriteRequest} (hr : rs[l]? = some r) :
      r.schedule = some ((0 + l) % h.chunks.length) :=
    hrr.schedule (by omega) (by change 0 + _ < _; omega) hr
  have hmod : i ≡ j [MOD h.chunks.length] := by
    have hi := (hscheduled hr).symm.trans hc
    have hj := (hscheduled hr').symm.trans hc'
    rw [Nat.zero_add] at hi hj
    unfold Nat.ModEq
    rw [Option.some.inj hi, Option.some.inj hj, hcc]
  exact hmod.add_le_of_lt hij

/-- With a mount point for each chunk and no more requests in a second than chunks, the round robin
keeps the files apart. -/
theorem roundRobin_distinctFiles (hs : (writeSystem h).init s)
    (hrun : (writeSystem h).run System.AnyStep s rs = some t)
    (hrr : RoundRobin h.chunks.length 0 rs) (hlen : rs.length < 2 ^ 31)
    (hmount : (h.chunks.map (·.mountPoint)).Nodup) (hclock : rs.Pairwise (·.time ≤ ·.time))
    (hyear : ∀ r ∈ rs, r.time < 2 ^ 32)
    (hsecond : ∀ i r r', rs[i]? = some r → rs[i + h.chunks.length]? = some r' →
      r.time < r'.time) : DistinctFiles t.files := by
  rw [((NamedBy.init hs).run hrun).distinct, List.nil_append]
  apply List.Nodup.sublist (storedKeys_sublist h s rs)
  rw [List.Nodup, List.pairwise_filterMap, List.pairwise_iff_getElem]
  intro i j hi hj hij key hkey key' hkey' heq
  have hround := hrr.spacing hlen hmount hij (List.getElem?_eq_getElem hi)
    (List.getElem?_eq_getElem hj) hkey hkey' (congrArg Prod.fst heq)
  have hin : i + h.chunks.length < rs.length := lt_of_le_of_lt hround hj
  have hlater := hsecond i _ _ (List.getElem?_eq_getElem hi) (List.getElem?_eq_getElem hin)
  have hle : rs[i + h.chunks.length].time ≤ rs[j].time := by
    obtain hlt | heq := hround.lt_or_eq
    · exact List.pairwise_iff_getElem.mp hclock _ j _ hj hlt
    · simp [heq]
  -- The seconds are those that `%u` prints, so one key is one second.
  have htime : rs[i].time = rs[j].time := by
    obtain ⟨_, _, _, _, rfl⟩ := key_eq_some hkey
    obtain ⟨_, _, _, _, rfl⟩ := key_eq_some hkey'
    have hsecond := congrArg Prod.snd heq
    rwa [fileKey, fileKey, Nat.mod_eq_of_lt (hyear _ (List.getElem_mem hi)),
      Nat.mod_eq_of_lt (hyear _ (List.getElem_mem hj))] at hsecond
  omega

/-- Two requests, for the one chunk in turn. -/
theorem roundRobin_distinctFiles_later : ∃ t,
    (writeSystem (oneChunk false)).run System.AnyStep emptyInodes
      [goodRequest 2 5 0 10, goodRequest 3 5 0 11] = some t ∧ DistinctFiles t.files := by
  obtain ⟨t, hrun⟩ : ∃ t, (writeSystem (oneChunk false)).run System.AnyStep emptyInodes
      [goodRequest 2 5 0 10, goodRequest 3 5 0 11] = some t := ⟨_, rfl⟩
  refine ⟨t, hrun, roundRobin_distinctFiles (emptyInodes_init (oneChunk false)) hrun
    ⟨rfl, rfl, trivial⟩ (by decide) (by decide) (by decide) (by decide) ?_⟩
  intro i r r' hr hr'
  match i with
  | 0 =>
    cases hr
    cases hr'
    decide
  | i + 1 => cases hr'

end RoundRobin

end SeamlessStack.Sfsd

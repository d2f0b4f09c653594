import SeamlessStack.Sfs.NamespaceRuns

/-! The inode numbers that paths lead to. One process never lets two paths lead to one inode. The
next starts with the same numbers, and memcached still has the paths of the last one. -/
namespace SeamlessStack.Sfs

open Lib Db Function

variable {R : Type}

def Apart (paths : Name → Option (BitVec 64)) : Prop :=
  ∀ p q num, paths p = some num → paths q = some num → p = q

section Apart
variable {paths : Name → Option (BitVec 64)} {path : Name} {num : BitVec 64}

theorem Apart.forget (h : Apart paths) : Apart (update paths path none) := by
  intro p q n hp hq
  have hold : ∀ r, update paths path none r = some n → paths r = some n := by
    intro r hr
    by_cases hpath : r = path
    · rw [hpath, update_self] at hr
      cases hr
    · rwa [update_of_ne hpath] at hr
  exact h p q n (hold p hp) (hold q hq)

theorem Apart.lead (h : Apart paths) (hnum : ∀ p, p ≠ path → paths p ≠ some num) :
    Apart (update paths path (some num)) := by
  intro p q n hp hq
  by_cases hpp : p = path <;> by_cases hqp : q = path
  · rw [hpp, hqp]
  · rw [hpp, update_self] at hp
    rw [update_of_ne hqp] at hq
    cases hp
    exact absurd hq (hnum q hqp)
  · rw [hqp, update_self] at hq
    rw [update_of_ne hpp] at hp
    cases hq
    exact absurd hp (hnum p hpp)
  · rw [update_of_ne hpp] at hp
    rw [update_of_ne hqp] at hq
    exact h p q n hp hq

end Apart

/-- Inodes are stored under their numbers; paths lead to different ones, none still to come. -/
structure Numbered (s : Namespace R) : Prop where
  keyed : ∀ d ∈ s.inodes, d.recordNum = inodeStr d.record.num
  bounded : ∀ path num, s.paths path = some num → num.toNat ≤ s.inodeNumber.toNat
  apart : Apart s.paths

section Process
variable {s s' t : Namespace R} {o : Outcome R} {c : FileCall R}
  {calls : List (FileCall R × Outcome R)} {rets : List ℤ}

/-- Unless a stale pointer is followed, the inode that is read has the number asked for. -/
theorem getInode_num {num : BitVec 64} {inode : Inode R}
    (hkeyed : ∀ d ∈ s.inodes, d.recordNum = inodeStr d.record.num)
    (hstale : ∀ record, o.stale ≠ .memory record)
    (hget : o.getInode s.toStores num = .ok (0, some inode)) : inode.num = num := by
  unfold RenameOutcome.getInode Db.getInode mongoDbGet at hget
  split at hget
  · cases hget
  cases hfound : o.get.found s.inodes (inodeStr num) with
  | none =>
    rw [hfound] at hget
    cases hptr : o.stale with
    | null =>
      rw [hptr] at hget
      cases hget
    | unmapped =>
      rw [hptr] at hget
      cases hget
    | memory record => exact absurd hptr (hstale record)
  | some d =>
    have hmem : d ∈ s.inodes ∧ d.recordNum = inodeStr num := by
      unfold GetOutcome.found at hfound
      split_ifs at hfound
      exact ⟨List.mem_of_find?_eq_some hfound, by simpa using List.find?_some hfound⟩
    have hrecord : inode = d.record := by
      simp only [hfound, Bool.true_eq_false, if_false] at hget
      cases hmalloc : o.get.malloc with
      | false =>
        rw [if_pos hmalloc] at hget
        cases hget
      | true =>
        rw [if_neg (by simp [hmalloc]), ok_bind] at hget
        dsimp only at hget
        split at hget
        · injection hget with hpair
          injection hpair with _ hinode
          exact (Option.some.inj hinode).symm
        · cases hget
    rw [hrecord]
    exact inodeStr_injective ((hkeyed d hmem.1).symm.trans hmem.2)

theorem toNat_succ {n : BitVec 64} (h : n.toNat + 1 < 2 ^ 64) : (n + 1).toNat = n.toNat + 1 := by
  rw [BitVec.toNat_add]
  exact Nat.mod_eq_of_lt h

/-- A path leads where one led before, or to the newest number. -/
theorem Step.paths_from (hstep : Step c o s s')
    (hkeyed : ∀ d ∈ s.inodes, d.recordNum = inodeStr d.record.num)
    (hstale : ∀ record, o.stale ≠ .memory record) {path : Name} {num : BitVec 64}
    (hpath : s'.paths path = some num) :
    (∃ p, s.paths p = some num) ∨ num = s'.inodeNumber := by
  cases hstep.paths with
  | same h => exact .inl ⟨path, h ▸ hpath⟩
  | forgot p h =>
    rw [h, update_apply] at hpath
    split at hpath
    · cases hpath
    · exact .inl ⟨path, hpath⟩
  | new p hnames hnum h =>
    rw [h, update_apply] at hpath
    split at hpath
    · cases hpath
      exact .inr hnum.symm
    · exact .inl ⟨path, hpath⟩
  | moved src dst n hcall hsrc h =>
    rw [h, update_apply, update_apply] at hpath
    split at hpath
    · cases hpath
      exact .inl ⟨src, hsrc⟩
    split at hpath
    · cases hpath
    · exact .inl ⟨path, hpath⟩
  | again p n inode hp hget h =>
    rw [h, getInode_num hkeyed hstale hget, update_apply] at hpath
    split at hpath
    · cases hpath
      exact .inl ⟨p, hp⟩
    · exact .inl ⟨path, hpath⟩

theorem Step.numbered (hstep : Step c o s s') (hs : Numbered s)
    (hroom : s.inodeNumber.toNat + 1 < 2 ^ 64) (hstale : ∀ record, o.stale ≠ .memory record) :
    Numbered s' := by
  have hgrows : s.inodeNumber.toNat ≤ s'.inodeNumber.toNat := by
    obtain h | h := hstep.number
    · rw [h]
    · rw [h, toNat_succ hroom]
      omega
  have hkeyed : ∀ d ∈ s'.inodes, d.recordNum = inodeStr d.record.num := by
    intro d hd
    exact (hstep.inodes d hd).elim (hs.keyed d) id
  refine ⟨hkeyed, ?_, ?_⟩
  · intro path num hpath
    obtain ⟨p, hp⟩ | rfl := hstep.paths_from hs.keyed hstale hpath
    · exact (hs.bounded p num hp).trans hgrows
    · exact le_rfl
  · cases hstep.paths with
    | same h => exact h ▸ hs.apart
    | forgot p h => exact h ▸ hs.apart.forget
    | new p hnames hnum h =>
      rw [h]
      refine hs.apart.lead ?_
      intro q _ hq
      have hle := hs.bounded q _ hq
      rw [toNat_succ hroom] at hle
      omega
    | moved src dst num hcall hsrc h =>
      rw [h]
      refine hs.apart.forget.lead ?_
      intro q _ hq
      by_cases hqs : q = src
      · rw [hqs, update_self] at hq
        cases hq
      · rw [update_of_ne hqs] at hq
        exact hqs (hs.apart q src num hq hsrc)
    | again p num inode hp hget h =>
      rw [h, getInode_num hs.keyed hstale hget]
      refine hs.apart.lead ?_
      intro q hqp hq
      exact hqp (hs.apart q p num hq hp)

theorem run_numbered (hs : Numbered s) (hroom : s.inodeNumber.toNat + calls.length < 2 ^ 64)
    (hstale : ∀ c ∈ calls, ∀ record, c.2.stale ≠ .memory record)
    (hrun : s.run calls = .ok (rets, t)) : Numbered t := by
  induction calls generalizing s rets with
  | nil =>
    cases hrun
    exact hs
  | cons c calls ih =>
    obtain ⟨ret, s₁, rets', hcall, hrun', -⟩ := run_cons hrun
    have hstep := call_step hcall
    rw [List.length_cons] at hroom
    have hnumbered := hstep.numbered hs (by omega) (hstale c List.mem_cons_self)
    refine ih hnumbered ?_ ?_ hrun'
    · obtain h | h := hstep.number
      · rw [h]
        omega
      · rw [h, toNat_succ (by omega)]
        omega
    · intro d hd
      exact hstale d (List.mem_cons_of_mem c hd)

/-- From a first start on, different paths lead to different inodes, as long as `get_inode` follows
no stale pointer and the numbers do not run out. -/
theorem paths_apart (hpaths : ∀ path, s.paths path = none) (hinodes : s.inodes = [])
    (hroom : s.inodeNumber.toNat + calls.length < 2 ^ 64)
    (hstale : ∀ c ∈ calls, ∀ record, c.2.stale ≠ .memory record)
    (hrun : s.run calls = .ok (rets, t)) {p q : Name} (hne : p ≠ q) (hknown : t.paths p ≠ none) :
    t.paths p ≠ t.paths q := by
  have hs : Numbered s := by
    refine ⟨?_, ?_, ?_⟩
    · simp [hinodes]
    · simp [hpaths]
    · intro p q num hp
      rw [hpaths] at hp
      cases hp
  obtain ⟨num, hp⟩ := Option.ne_none_iff_exists'.mp hknown
  intro heq
  exact hne ((run_numbered hs hroom hstale hrun).apart p q num hp (heq ▸ hp))

/-- A hard link has an inode of its own. -/
theorem paths_apart_link :
    ∃ t, firstStart.run [(.create ['/', 'a'], allWell), (.symlink ['/', 'b'], allWell),
        (.link ['/', 'b'] ['/', 'c'], allWell)] = .ok ([0, 0, 0], t) ∧
      t.paths ['/', 'b'] ≠ t.paths ['/', 'c'] := by
  have hcalls : ∃ t, firstStart.run [(.create ['/', 'a'], allWell), (.symlink ['/', 'b'], allWell),
        (.link ['/', 'b'] ['/', 'c'], allWell)] = .ok ([0, 0, 0], t) ∧
      t.paths ['/', 'b'] = some 4 := ⟨_, rfl, rfl⟩
  obtain ⟨t, hrun, hknown⟩ := hcalls
  refine ⟨t, hrun, paths_apart (fun _ => rfl) rfl (by decide) ?_ hrun (by decide) ?_⟩
  · intro c hc record
    simp only [List.mem_cons, List.not_mem_nil, or_false] at hc
    obtain rfl | rfl | rfl := hc <;> simp [allWell]
  · rw [hknown]
    exact Option.some_ne_none _

end Process

def creates (names : List (Name × Outcome R)) : List (FileCall R × Outcome R) :=
  names.map fun p => (.create p.1, p.2)

section Restart
variable {s t u : Namespace R} {o : Outcome R} {path : Name}
  {names olds news : List (Name × Outcome R)}
  {rets rets' : List ℤ}

theorem storeNew_zero (h : s.storeNew o path = .ok (0, t)) :
    ∃ len, t.inodes = s.inodes ++ [inodeDoc s.inodeNumber ⟨s.inodeNumber, path, o.rest⟩ len] := by
  obtain ⟨hinodes, -, -, ⟨hret, -⟩ | ⟨-, hput, -⟩⟩ := storeNew_cases h
  · cases hret
  rw [hinodes]
  unfold Namespace.putInode at hput ⊢
  by_cases hnum : s.inodeNumber < inodeNumStart
  · unfold Db.putInode at hput
    rw [if_neg (by decide), if_pos hnum] at hput
    cases hput
  cases hflat : o.flatten ⟨s.inodeNumber, path, o.rest⟩ with
  | none =>
    rw [hflat] at hput
    unfold Db.putInode at hput
    rw [if_neg (by decide), if_neg hnum] at hput
    cases hput
  | some len =>
    rw [hflat, Option.map_some] at hput
    refine ⟨len, ?_⟩
    obtain h | h := putInode_insert s.inodes o.insert o.update
      (⟨s.inodeNumber, path, o.rest⟩ : Inode R) len hnum
    · exact congrArg Prod.snd h
    · rw [h] at hput
      cases hput

theorem create_zero (h : s.sfsCreate o path = .ok (0, t)) :
    t.inodeNumber = s.inodeNumber + 1 ∧
      t.paths = update s.paths path (some (s.inodeNumber + 1)) ∧
      ∃ len, t.inodes = s.inodes ++
        [inodeDoc (s.inodeNumber + 1) ⟨s.inodeNumber + 1, path, o.rest⟩ len] := by
  unfold Namespace.sfsCreate at h
  split at h
  · cases h
  split at h
  · cases h
  dsimp only at h
  split at h
  · cases h
  rename_i ret u hstore
  split_ifs at h with hret
  · cases h
  rw [ne_eq, not_not] at hret
  subst hret
  have hu : u = t := by
    split at h
    · cases h
    · cases h
      rfl
  subst hu
  obtain ⟨-, -, hnum, ⟨hret, -⟩ | ⟨-, -, hpaths⟩⟩ := storeNew_cases hstore
  · cases hret
  · exact ⟨hnum, hpaths, storeNew_zero hstore⟩

def Namespace.nextNumber (s : Namespace R) (i : ℕ) : BitVec 64 :=
  s.inodeNumber + 1 + BitVec.ofNat 64 i

theorem nextNumber_zero (s : Namespace R) : s.nextNumber 0 = s.inodeNumber + 1 :=
  BitVec.add_zero _

theorem nextNumber_succ (h : t.inodeNumber = s.inodeNumber + 1) (i : ℕ) :
    t.nextNumber i = s.nextNumber (i + 1) := by
  unfold Namespace.nextNumber
  rw [h, BitVec.ofNat_add, BitVec.add_comm (BitVec.ofNat 64 i), ← BitVec.add_assoc]
  rfl

/-- The numbers are counted up from the last one, and the inodes follow those that were there. -/
structure Created (s t : Namespace R) (names : List (Name × Outcome R)) : Prop where
  keys : t.inodes.map (·.recordNum) = s.inodes.map (·.recordNum) ++
    (List.range names.length).map (fun i => inodeStr (s.nextNumber i))
  inode : ∀ i p, names[i]? = some p → ∃ d ∈ t.inodes, d.record.name = p.1 ∧
    d.recordNum = inodeStr (s.nextNumber i)
  kept : ∀ d ∈ s.inodes, d ∈ t.inodes
  other : ∀ path, path ∉ names.map Prod.fst → t.paths path = s.paths path
  path : (names.map Prod.fst).Nodup → ∀ i p, names[i]? = some p →
    t.paths p.1 = some (s.nextNumber i)

theorem run_creates (hrun : s.run (creates names) = .ok (rets, t)) (hrets : ∀ ret ∈ rets, ret = 0) :
    Created s t names := by
  induction names generalizing s rets with
  | nil =>
    cases hrun
    exact ⟨by simp, by simp, fun _ hd => hd, fun _ _ => rfl, by simp⟩
  | cons p names ih =>
    obtain ⟨ret, s₁, rets', hcall, hrun', hcons⟩ := run_cons hrun
    rw [hcons] at hrets
    have hzero := hrets ret List.mem_cons_self
    subst hzero
    obtain ⟨hnum, hpaths, len, hinodes⟩ := create_zero hcall
    have hrest := ih hrun' fun r hr => hrets r (List.mem_cons_of_mem _ hr)
    have hkept : ∀ d ∈ s₁.inodes, d ∈ t.inodes := hrest.kept
    rw [hinodes] at hkept
    refine ⟨?_, ?_, ?_, ?_, ?_⟩
    · rw [hrest.keys, hinodes, List.length_cons, List.range_succ_eq_map, List.map_cons,
        List.map_map, nextNumber_zero]
      simp [inodeDoc, nextNumber_succ hnum, comp_def]
    · intro i q hq
      cases i with
      | zero =>
        cases hq
        rw [nextNumber_zero]
        exact ⟨_, hkept _ (List.mem_append_right _ List.mem_cons_self), rfl, rfl⟩
      | succ i =>
        rw [← nextNumber_succ hnum]
        exact hrest.inode i q hq
    · intro d hd
      exact hkept d (List.mem_append_left _ hd)
    · intro path hpath
      rw [List.map_cons, List.mem_cons, not_or] at hpath
      rw [hrest.other path hpath.2, hpaths, update_of_ne hpath.1]
    · intro hnodup i q hq
      rw [List.map_cons, List.nodup_cons] at hnodup
      cases i with
      | zero =>
        cases hq
        rw [hrest.other p.1 hnodup.1, hpaths, update_self, nextNumber_zero]
      | succ i =>
        rw [← nextNumber_succ hnum]
        exact hrest.path hnodup.2 i q hq

theorem nextNumber_inj {i j : ℕ} (hi : i < 2 ^ 64) (hj : j < 2 ^ 64)
    (h : s.nextNumber i = s.nextNumber j) : i = j := by
  have hnat := congrArg BitVec.toNat ((BitVec.add_right_inj _).mp h)
  rwa [BitVec.toNat_ofNat, BitVec.toNat_ofNat, Nat.mod_eq_of_lt hi, Nat.mod_eq_of_lt hj] at hnat

/-- Files created after a restart take over the inodes of the files created before. -/
theorem restart_takes_over (hstart : s.inodeNumber = inodeNumStart)
    (hold : s.run (creates olds) = .ok (rets, u)) (hrets : ∀ ret ∈ rets, ret = 0)
    (hnew : (u.restart true).run (creates news) = .ok (rets', t)) (hrets' : ∀ ret ∈ rets', ret = 0)
    (hnames : (olds.map Prod.fst ++ news.map Prod.fst).Nodup) (hroom : news.length < 2 ^ 64)
    {i : ℕ} {p q : Name × Outcome R} (hp : olds[i]? = some p) (hq : news[i]? = some q) :
    ∃ num d, t.paths p.1 = some num ∧ t.paths q.1 = some num ∧
      t.inodes.findOne (inodeStr num) = some d ∧ d.record.name = q.1 := by
  obtain ⟨holds, hnews, hdisjoint⟩ := List.nodup_append.mp hnames
  have hfirst := run_creates hold hrets
  have hsecond := run_creates hnew hrets'
  -- both processes start from the same number
  have hsame : (u.restart true).nextNumber i = s.nextNumber i := by
    unfold Namespace.nextNumber
    rw [hstart]
    rfl
  obtain ⟨d, hd, hname, hkey⟩ := hsecond.inode i q hq
  refine ⟨s.nextNumber i, d, ?_, ?_, ?_, hname⟩
  · have hnotMem : p.1 ∉ news.map Prod.fst := by
      intro hmem
      exact hdisjoint p.1 (List.mem_map_of_mem (List.mem_of_getElem? hp)) p.1 hmem rfl
    rw [hsecond.other p.1 hnotMem]
    exact hfirst.path holds i p hp
  · rw [← hsame]
    exact hsecond.path hnews i q hq
  · have hkeys : (t.inodes.map (·.recordNum)).Nodup := by
      rw [hsecond.keys]
      refine List.Nodup.map_on ?_ List.nodup_range
      intro a ha b hb hab
      rw [List.mem_range] at ha hb
      exact nextNumber_inj (by omega) (by omega) (inodeStr_injective hab)
    rw [← hsame, ← hkey]
    exact findKey_of_nodup hkeys hd

/-- A file created after a restart, and one from before. -/
theorem restart_takes_over_one :
    ∃ u t, firstStart.run (creates [(['/', 'a'], allWell)]) = .ok ([0], u) ∧
      (u.restart true).run (creates [(['/', 'b'], allWell)]) = .ok ([0], t) ∧
      ∃ num d, t.paths ['/', 'a'] = some num ∧ t.paths ['/', 'b'] = some num ∧
        t.inodes.findOne (inodeStr num) = some d ∧ d.record.name = ['/', 'b'] := by
  have hcalls : ∃ u t, firstStart.run (creates [(['/', 'a'], allWell)]) = .ok ([0], u) ∧
      (u.restart true).run (creates [(['/', 'b'], allWell)]) = .ok ([0], t) := ⟨_, _, rfl, rfl⟩
  obtain ⟨u, t, hold, hnew⟩ := hcalls
  have hfirst : [((['/', 'a'] : Name), allWell)][0]? = some (['/', 'a'], allWell) := rfl
  have hsecond : [((['/', 'b'] : Name), allWell)][0]? = some (['/', 'b'], allWell) := rfl
  exact ⟨u, t, hold, hnew, restart_takes_over rfl hold (by simp) hnew (by simp) (by simp)
    (by decide) hfirst hsecond⟩

end Restart

end SeamlessStack.Sfs

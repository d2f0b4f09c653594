import SeamlessStack.Sfs.Namespace

/-! Runs of the calls of the file system: which files are found, what a removal takes, and what
is left of a file that was renamed. -/
namespace SeamlessStack.Sfs

open Lib Db Function

variable {R : Type}

section Runs
variable {s t t' : Namespace R} {calls : List (FileCall R × Outcome R)} {rets : List ℤ}
  {path : Name} {kind : FileKind} {o : Outcome R}

theorem run_cons {c : FileCall R × Outcome R} (hrun : s.run (c :: calls) = .ok (rets, t)) :
    ∃ ret s₁ rets', s.call c.2 c.1 = .ok (ret, s₁) ∧ s₁.run calls = .ok (rets', t) ∧
      rets = ret :: rets' := by
  obtain ⟨⟨ret, s₁⟩, hcall, hrest⟩ := bind_eq_ok.mp hrun
  obtain ⟨⟨rets', t'⟩, hrun', heq⟩ := bind_eq_ok.mp hrest
  cases heq
  exact ⟨ret, s₁, rets', hcall, hrun', rfl⟩

theorem run_invariant {I : Namespace R → Prop}
    (hstep : ∀ c ∈ calls, ∀ s s', I s → Step c.1 c.2 s s' → I s')
    (hs : I s) (hrun : s.run calls = .ok (rets, t)) : I t := by
  induction calls generalizing s rets with
  | nil =>
    cases hrun
    exact hs
  | cons c calls ih =>
    obtain ⟨ret, s₁, rets', hcall, hrun', -⟩ := run_cons hrun
    refine ih ?_ ?_ hrun'
    · intro d hd
      exact hstep d (List.mem_cons_of_mem c hd)
    · exact hstep c List.mem_cons_self s s₁ hs (call_step hcall)

theorem run_files {name : Name} (hrun : s.run calls = .ok (rets, t))
    (h : t.files name = some kind) :
    s.files name = some kind ∨ ∃ c ∈ calls, c.1.Made name kind := by
  refine run_invariant (I := fun u => u.files name = some kind → s.files name = some kind ∨
    ∃ c ∈ calls, c.1.Made name kind) ?_ .inl hrun h
  intro c hc u u' hu hstep hfile
  obtain hsame | ⟨-, kind', hmade, hnew⟩ | ⟨hgone, -⟩ := hstep.files name
  · exact hu (hsame ▸ hfile)
  · rw [hnew] at hfile
    cases hfile
    exact .inr ⟨c, hc, hmade⟩
  · rw [hgone] at hfile
    cases hfile

theorem run_files_stay {name : Name} (hrun : s.run calls = .ok (rets, t))
    (hfile : s.files name = some kind) (hkept : ∀ c ∈ calls, ¬ c.1.Removes name) :
    t.files name = some kind := by
  refine run_invariant (I := fun u => u.files name = some kind) ?_ hfile hrun
  intro c hc u u' hu hstep
  obtain hsame | ⟨hnone, -⟩ | ⟨-, hremoves⟩ := hstep.files name
  · exact hsame.trans hu
  · rw [hu] at hnone
    cases hnone
  · exact absurd hremoves (hkept c hc)

/-- A path that memcached does not know stays unknown unless a call names it. -/
theorem run_paths_none (hrun : s.run calls = .ok (rets, t)) (hpath : s.paths path = none)
    (hunnamed : ∀ c ∈ calls, ¬ c.1.Names path) : t.paths path = none := by
  refine run_invariant (I := fun u => u.paths path = none) ?_ hpath hrun
  intro c hc u u' hu hstep
  cases hstep.paths with
  | same h => rw [h, hu]
  | forgot p h =>
    rw [h, update_apply, hu, ite_self]
  | new p hnames hnum h =>
    have hne : path ≠ p := by
      rintro rfl
      exact hnames.elim (hunnamed c hc) fun hknown => hknown hu
    rw [h, update_of_ne hne, hu]
  | moved src dst num hcall hsrc h =>
    have hne : path ≠ dst := by
      rintro rfl
      exact hunnamed c hc (hcall ▸ .rename src path)
    rw [h, update_of_ne hne, update_apply, hu, ite_self]
  | again p num inode hp hget h =>
    have hne : path ≠ p := by
      rintro rfl
      rw [hu] at hp
      cases hp
    rw [h, update_of_ne hne, hu]

theorem getattr_zero (h : t.sfsGetattr o path = .ok (0, t')) :
    t.files (prependMntpath path) ≠ none ∧ t.paths path ≠ none := by
  unfold Namespace.sfsGetattr at h
  split at h
  · injection h with hpair
    injection hpair with hret
    exact absurd hret (by decide)
  split at h
  · injection h with hpair
    injection hpair with hret
    have hpos : 0 < (o.errno : ℤ) := by exact_mod_cast o.errno.pos
    omega
  · rename_i hok
    rw [not_or] at hok
    obtain ⟨hret, -⟩ | ⟨num, inode, hpath, -, -⟩ := withInode_eq_ok h
    · cases hret
    · refine ⟨hok.2, ?_⟩
      rw [hpath]
      exact Option.some_ne_none num

theorem removePath_keeps {removable : FileKind → Bool} {ret : ℤ}
    (h : s.removePath o path removable = .ok (ret, t)) :
    t.files (prependMntpath path) = s.files (prependMntpath path) := by
  obtain ⟨-, hsame | ⟨hgone, -⟩⟩ := removePath_cases h
  · rw [hsame]
  · rw [hgone]
    exact update_of_ne (prependMntpath_ne path) _ _

theorem mkdir_zero (h : s.sfsMkdir o path = .ok (0, t)) :
    t.files (prependMntpath path) = some .directory := by
  unfold Namespace.sfsMkdir at h
  split at h
  · cases h
  split at h
  · cases h
  split at h
  · cases h
  · rw [(storeNew_cases h).2.1]
    exact update_self _ _ _

theorem rename_zero {src dst : Name} (hne : src ≠ dst) (h : s.sfsRename o src dst = .ok (0, t)) :
    t.paths src = none ∧ t.files = s.files := by
  obtain ⟨hret, -⟩ | ⟨num, inode, -, -, hfiles, -, hpaths⟩ := rename_cases h
  · cases hret
  obtain ⟨hret, -⟩ | ⟨hret, -⟩ | ⟨-, hmoved⟩ := hpaths
  · cases hret
  · cases hret
  · refine ⟨?_, hfiles⟩
    rw [hmoved, update_of_ne hne, update_self]

end Runs

/-- All calls succeed. -/
def allWell : Outcome Unit where
  read := true
  lock := true
  get := ⟨true, true, true⟩
  stale := .null
  fill := fun _ => 0
  flatten := fun _ => some 4272
  update := ⟨true, true, true, true, true, true⟩
  removed := true
  stored := true
  system := true
  errno := ⟨2, Nat.succ_pos 1⟩
  stat := true
  undone := true
  allocated := true
  rest := ()
  insert := ⟨true, true, true, true, true⟩
  job := true

def firstStart : Namespace Unit where
  paths _ := none
  inodes := []
  files path := if path = ['/', 'd'] then some .directory else none
  inodeNumber := inodeNumStart

section Results
variable {s s₁ t t' : Namespace R} {calls : List (FileCall R × Outcome R)} {rets : List ℤ}
  {o o' : Outcome R} {path : Name}

/-- A file is found only if it was below the directory of the file system at the start, or was made
there, not by a rename or a link. -/
theorem getattr_finds_made (hrun : s.run calls = .ok (rets, t))
    (hfound : t.sfsGetattr o path = .ok (0, t')) :
    s.files (prependMntpath path) ≠ none ∨ ∃ c ∈ calls, c.1 = .mkdir path ∨ c.1 = .create path ∨
      c.1 = .symlink (prependMntpath path) ∨ ∃ src, c.1 = .link src (prependMntpath path) := by
  obtain ⟨kind, hkind⟩ := Option.ne_none_iff_exists'.mp (getattr_zero hfound).1
  obtain hold | ⟨c, hc, hmade⟩ := run_files hrun hkind
  · refine .inl ?_
    rw [hold]
    exact Option.some_ne_none kind
  · refine .inr ⟨c, hc, ?_⟩
    generalize hcall : c.1 = call, hname : prependMntpath path = name at hmade ⊢
    cases hmade with
    | mkdir p => exact .inl (by rw [prependMntpath_injective hname])
    | create p => exact .inr (.inl (by rw [prependMntpath_injective hname]))
    | symlink dst => exact .inr (.inr (.inl rfl))
    | link src dst hkind => exact .inr (.inr (.inr ⟨src, rfl⟩))

theorem getattr_finds_made_created :
    ∃ t, firstStart.run [(.create ['/', 'a'], allWell)] = .ok ([0], t) ∧
      (∃ t', t.sfsGetattr allWell ['/', 'a'] = .ok (0, t')) ∧
      (firstStart.files (prependMntpath ['/', 'a']) ≠ none ∨
        ∃ c ∈ [((.create ['/', 'a'] : FileCall Unit), allWell)],
          c.1 = .mkdir ['/', 'a'] ∨ c.1 = .create ['/', 'a'] ∨
            c.1 = .symlink (prependMntpath ['/', 'a']) ∨
            ∃ src, c.1 = .link src (prependMntpath ['/', 'a'])) :=
  ⟨_, rfl, ⟨_, rfl⟩, getattr_finds_made (o := allWell) rfl rfl⟩

/-- A removal that returns has failed, and memcached and the database are as before. The file that
it took, if any, is one under the very path; the file below the directory of the file system is
still there. -/
theorem removal_fails (hrun : s.run calls = .ok (rets, t)) {c : FileCall R} {ret : ℤ}
    (hc : c = .unlink path ∨ c = .rmdir path) (hreturns : t.call o c = .ok (ret, t')) :
    ret = -1 ∧ t'.files (prependMntpath path) = t.files (prependMntpath path) ∧
      (t' = t ∨ t' = t.setFile path none ∧ ∃ kind, (kind = .directory ↔ c = .rmdir path) ∧
        (s.files path = some kind ∨ ∃ d ∈ calls, d.1.Made path kind)) := by
  obtain rfl | rfl := hc
  · obtain ⟨hret, hcase⟩ := removePath_cases hreturns
    refine ⟨hret, removePath_keeps hreturns, hcase.imp_right ?_⟩
    rintro ⟨hgone, kind, hkind, hok⟩
    exact ⟨hgone, kind, iff_of_false (by simpa using hok) (by simp), run_files hrun hkind⟩
  · obtain ⟨hret, hcase⟩ := removePath_cases hreturns
    refine ⟨hret, removePath_keeps hreturns, hcase.imp_right ?_⟩
    rintro ⟨hgone, kind, hkind, hok⟩
    exact ⟨hgone, kind, iff_of_true (by simpa using hok) rfl, run_files hrun hkind⟩

def jobless : Outcome Unit := { allWell with job := false }

/-- The directory of the host is gone, and the one that `sfs_mkdir` made is not. -/
theorem removal_fails_rmdir :
    ∃ t t', firstStart.run [(.mkdir ['/', 'd'], allWell)] = .ok ([0], t) ∧
      t.call jobless (.rmdir ['/', 'd']) = .ok (-1, t') ∧ t'.files ['/', 'd'] = none ∧
      t'.files (prependMntpath ['/', 'd']) = some .directory ∧
      (t' = t ∨ t' = t.setFile ['/', 'd'] none ∧
        ∃ kind, (kind = .directory ↔ (.rmdir ['/', 'd'] : FileCall Unit) = .rmdir ['/', 'd']) ∧
          (firstStart.files ['/', 'd'] = some kind ∨
            ∃ d ∈ [((.mkdir ['/', 'd'] : FileCall Unit), allWell)], d.1.Made ['/', 'd'] kind)) := by
  have hcalls : ∃ t t', firstStart.run [(.mkdir ['/', 'd'], allWell)] = .ok ([0], t) ∧
      t.call jobless (.rmdir ['/', 'd']) = .ok (-1, t') ∧ t'.files ['/', 'd'] = none ∧
      t'.files (prependMntpath ['/', 'd']) = some .directory := ⟨_, _, rfl, rfl, rfl, rfl⟩
  obtain ⟨t, t', hrun, hcall, hgone, hkept⟩ := hcalls
  exact ⟨t, t', hrun, hcall, hgone, hkept, (removal_fails hrun (.inr rfl) hcall).2.2⟩

/-- A directory that was made cannot be made again, unless its path below the directory of the file
system was itself the path of a removal. -/
theorem mkdir_once (hmade : s.sfsMkdir o path = .ok (0, s₁)) (hrun : s₁.run calls = .ok (rets, t))
    (hkept : ∀ c ∈ calls, ¬ c.1.Removes (prependMntpath path)) :
    t.sfsMkdir o' path = .ok (-1, t) := by
  have hthere := run_files_stay hrun (mkdir_zero hmade) hkept
  unfold Namespace.sfsMkdir
  rw [if_pos]
  rw [hthere]
  exact .inr (Option.some_ne_none _)

/-- The removal in between takes the directory of the host. -/
theorem mkdir_once_removed :
    ∃ s₁ t, firstStart.sfsMkdir allWell ['/', 'd'] = .ok (0, s₁) ∧
      s₁.run [(.rmdir ['/', 'd'], jobless)] = .ok ([-1], t) ∧ t.files ['/', 'd'] = none ∧
      t.sfsMkdir allWell ['/', 'd'] = .ok (-1, t) := by
  have hcalls : ∃ s₁ t, firstStart.sfsMkdir allWell ['/', 'd'] = .ok (0, s₁) ∧
      s₁.run [(.rmdir ['/', 'd'], jobless)] = .ok ([-1], t) ∧ t.files ['/', 'd'] = none :=
    ⟨_, _, rfl, rfl, rfl⟩
  obtain ⟨s₁, t, hmade, hrun, hgone⟩ := hcalls
  refine ⟨s₁, t, hmade, hrun, hgone, mkdir_once hmade hrun ?_⟩
  intro c hc hremoves
  rw [List.mem_singleton.mp hc] at hremoves
  cases hremoves

/-- After a rename the old name is listed, if it was, but not found, and to open it ends in an
access through a null pointer, until a call names the path again. -/
theorem renamed_not_opened {src dst : Name} (hne : src ≠ dst)
    (hrename : s.sfsRename o src dst = .ok (0, s₁)) (hrun : s₁.run calls = .ok (rets, t))
    (hunnamed : ∀ c ∈ calls, ¬ c.1.Names src)
    (hkept : ∀ c ∈ calls, ¬ c.1.Removes (prependMntpath src))
    (hlisted : s.files (prependMntpath src) ≠ none) :
    t.files (prependMntpath src) = s.files (prependMntpath src) ∧
      (∀ o' t', t.sfsGetattr o' src ≠ .ok (0, t')) ∧
      ∀ o' change, o'.system = true → o'.allocated = true →
        t.sfsOpen o' src change = .error .null := by
  obtain ⟨hgone, hfiles⟩ := rename_zero hne hrename
  have hnone := run_paths_none hrun hgone hunnamed
  obtain ⟨kind, hkind⟩ := Option.ne_none_iff_exists'.mp hlisted
  rw [← hfiles] at hkind ⊢
  have hthere := run_files_stay hrun hkind hkept
  refine ⟨hthere.trans hkind.symm, ?_, ?_⟩
  · intro o' t' hfound
    exact (getattr_zero hfound).2 hnone
  · intro o' change hsystem hallocated
    unfold Namespace.sfsOpen
    simp [hsystem, hallocated, hthere, hnone]

theorem renamed_not_opened_moved :
    ∃ s s₁, firstStart.run [(.create ['/', 'a'], allWell)] = .ok ([0], s) ∧
      s.sfsRename allWell ['/', 'a'] ['/', 'b'] = .ok (0, s₁) ∧
      s₁.sfsOpen allWell ['/', 'a'] id = .error .null := by
  have hcalls : ∃ s s₁, firstStart.run [(.create ['/', 'a'], allWell)] = .ok ([0], s) ∧
      s.sfsRename allWell ['/', 'a'] ['/', 'b'] = .ok (0, s₁) ∧
      s.files (prependMntpath ['/', 'a']) = some .file := ⟨_, _, rfl, rfl, rfl⟩
  obtain ⟨s, s₁, hrun, hrename, hfile⟩ := hcalls
  have hnone : s₁.run [] = .ok ([], s₁) := rfl
  refine ⟨s, s₁, hrun, hrename, ?_⟩
  refine (renamed_not_opened (by decide) hrename hnone ?_ ?_ ?_).2.2 allWell id rfl rfl
  · simp
  · simp
  · simp [hfile]

end Results

end SeamlessStack.Sfs

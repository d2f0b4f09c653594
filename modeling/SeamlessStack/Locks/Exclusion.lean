import SeamlessStack.Locks.FileLock

/-! The state word of a node says what is granted on its inode as long as no unlock leaves another
grant behind and no writer takes over a node that was unlocked after it was found. -/
namespace SeamlessStack.Locks

open Lib Function

/-- An unlock gives up the only lock on its inode, and the node that `sfs_wrlock` found is still
locked when its state is looked at. -/
def Careful (s : Threads) : Event → Prop
  | .unlock _ i => s.grants.countP (fun g => g.inode = i) ≤ 1
  | .wrlockNode t => ∀ k ∈ (s.pcs t).node, (s.mem.nodes k).state ≠ .unlocked
  | _ => True

instance (s : Threads) : ∀ e, Decidable (Careful s e)
  | .unlock _ i => inferInstanceAs (Decidable (s.grants.countP (fun g => g.inode = i) ≤ 1))
  | .wrlockNode t =>
    inferInstanceAs (Decidable (∀ k ∈ (s.pcs t).node, (s.mem.nodes k).state ≠ .unlocked))
  | .rdlock .. | .wrlock .. | .wrlockInsert _ => inferInstanceAs (Decidable True)

/-- What a node of the tree tells about the grants on its inode. -/
def Agrees (grants : List Grant) (i : ℕ) : LockState → Prop
  | .rdlocked => ∀ g ∈ grants, g.inode = i → g.mode = .read
  | .wrlocked => ∀ g ∈ grants, ∀ g' ∈ grants, g.inode = i → g'.inode = i → g = g'
  | .unlocked => False

structure TreeOk (s : Threads) : Prop where
  bound : ∀ i k, s.mem.filelockTree i = some k → k < s.mem.unused ∧ (s.mem.nodes k).inodeNum = i
  absent : ∀ i, s.mem.filelockTree i = none → ∀ g ∈ s.grants, g.inode ≠ i
  agrees : ∀ i k, s.mem.filelockTree i = some k → Agrees s.grants i (s.mem.nodes k).state
  noInsert : ∀ t k i, s.pcs t ≠ .insert k i

variable {g : Grant} {i : ℕ} {state : LockState}

theorem agrees_cons {grants : List Grant} (h : Agrees grants i state) (hg : g.inode ≠ i) :
    Agrees (g :: grants) i state := by
  cases state with
  | rdlocked =>
    intro g' hg' hi
    obtain rfl | hin := List.mem_cons.mp hg'
    · exact absurd hi hg
    · exact h g' hin hi
  | wrlocked =>
    intro g₁ h₁ g₂ h₂ hi₁ hi₂
    obtain rfl | hin₁ := List.mem_cons.mp h₁
    · exact absurd hi₁ hg
    obtain rfl | hin₂ := List.mem_cons.mp h₂
    · exact absurd hi₂ hg
    exact h g₁ hin₁ g₂ hin₂ hi₁ hi₂
  | unlocked => exact h

theorem agrees_erase {grants : List Grant} (h : Agrees grants i state) :
    Agrees (grants.erase g) i state := by
  cases state with
  | rdlocked =>
    intro g' hg'
    exact h g' (List.mem_of_mem_erase hg')
  | wrlocked =>
    intro g₁ h₁ g₂ h₂
    exact h g₁ (List.mem_of_mem_erase h₁) g₂ (List.mem_of_mem_erase h₂)
  | unlocked => exact h

variable {s : Threads}

theorem TreeOk.setPc (h : TreeOk s) {t : ℕ} {pc : Pc}
    (hpc : ∀ k i, pc ≠ .insert k i) : TreeOk { s with pcs := update s.pcs t pc } := by
  refine ⟨h.bound, h.absent, h.agrees, ?_⟩
  intro t' k i
  dsimp only
  by_cases ht : t' = t
  · subst ht
    rw [update_self]
    exact hpc k i
  · rw [update_of_ne ht]
    exact h.noInsert t' k i

theorem TreeOk.lockNew (h : TreeOk s) {t : ℕ} {mode : Mode} (hnone : s.mem.filelockTree i = none)
    (hstate : state = .rdlocked ∧ mode = .read ∨ state = .wrlocked) :
    TreeOk (s.finish ⟨t, i, mode⟩
      ((s.mem.createFilelocktreeNode i state).filelockTreeInsert s.mem.unused, .ok ())) := by
  have hfresh := h.absent i hnone
  have hinsert : (s.mem.createFilelocktreeNode i state).filelockTreeInsert s.mem.unused =
      { nodes := update s.mem.nodes s.mem.unused ⟨i, state⟩
        unused := s.mem.unused + 1
        filelockTree := update s.mem.filelockTree i (some s.mem.unused) } := by
    simp [LockTree.filelockTreeInsert, LockTree.createFilelocktreeNode, hnone]
  rw [hinsert]
  unfold Threads.finish
  have hold : ∀ {j k}, j ≠ i → update s.mem.filelockTree i (some s.mem.unused) j = some k →
      s.mem.filelockTree j = some k ∧ k ≠ s.mem.unused := by
    intro j k hj hk
    rw [update_of_ne hj] at hk
    exact ⟨hk, Nat.ne_of_lt (h.bound j k hk).1⟩
  constructor
  · intro j k hk
    dsimp only at hk ⊢
    by_cases hj : j = i
    · subst hj
      rw [update_self] at hk
      obtain rfl := Option.some.inj hk
      simp
    · obtain ⟨hk, hne⟩ := hold hj hk
      rw [update_of_ne hne]
      exact ⟨Nat.lt_succ_of_lt (h.bound j k hk).1, (h.bound j k hk).2⟩
  · intro j hj g hg
    dsimp only at hj
    have hji : j ≠ i := by
      intro heq
      simp [heq] at hj
    rw [update_of_ne hji] at hj
    obtain rfl | hin := List.mem_cons.mp hg
    · exact hji.symm
    · exact h.absent j hj g hin
  · intro j k hk
    dsimp only at hk ⊢
    by_cases hj : j = i
    · subst hj
      rw [update_self] at hk
      obtain rfl := Option.some.inj hk
      rw [update_self]
      obtain ⟨rfl, rfl⟩ | rfl := hstate
      · intro g hg hi
        obtain rfl | hin := List.mem_cons.mp hg
        · rfl
        · exact absurd hi (hfresh g hin)
      · intro g hg g' hg' hi hi'
        obtain rfl | hin := List.mem_cons.mp hg
        · obtain rfl | hin' := List.mem_cons.mp hg'
          · rfl
          · exact absurd hi' (hfresh g' hin')
        · exact absurd hi (hfresh g hin)
    · obtain ⟨hk, hne⟩ := hold hj hk
      rw [update_of_ne hne]
      exact agrees_cons (h.agrees j k hk) (Ne.symm hj)
  · exact h.noInsert

theorem TreeOk.share (h : TreeOk s) (t : ℕ) {k : ℕ}
    (hk : s.mem.filelockTree i = some k) (hstate : (s.mem.nodes k).state = .rdlocked) :
    TreeOk { s with grants := ⟨t, i, .read⟩ :: s.grants } := by
  have hagrees := h.agrees i k hk
  rw [hstate] at hagrees
  refine ⟨h.bound, ?_, ?_, h.noInsert⟩
  · intro j hj g hg
    obtain rfl | hin := List.mem_cons.mp hg
    · intro hij
      have hnone : s.mem.filelockTree i = none := by
        rw [show i = j from hij]
        exact hj
      rw [hk] at hnone
      cases hnone
    · exact h.absent j hj g hin
  · intro j k' hk'
    by_cases hj : j = i
    · subst hj
      have hkk : k = k' := Option.some.inj (hk.symm.trans hk')
      subst hkk
      show Agrees _ _ (s.mem.nodes k).state
      rw [hstate]
      intro g hg hi
      obtain rfl | hin := List.mem_cons.mp hg
      · rfl
      · exact hagrees g hin hi
    · exact agrees_cons (h.agrees j k' hk') (Ne.symm hj)

theorem TreeOk.rdlock (h : TreeOk s) (t i : ℕ) (ok : Bool) :
    TreeOk (s.finish ⟨t, i, .read⟩ (s.mem.sfsRdlock i ok)) := by
  unfold LockTree.sfsRdlock
  split
  · rename_i hnone
    split
    · exact h.lockNew hnone (Or.inl ⟨rfl, rfl⟩)
    · exact h
  · rename_i k hk
    split
    · rename_i hstate
      exact h.share t hk hstate
    · exact h
    · rename_i hstate
      have hagrees := h.agrees i k hk
      rw [hstate] at hagrees
      exact absurd hagrees id

theorem TreeOk.unlock (h : TreeOk s) {k : ℕ} (hg : g ∈ s.grants)
    (hone : s.grants.countP (fun g' => g'.inode = g.inode) ≤ 1)
    (hk : s.mem.filelockTree g.inode = some k) :
    TreeOk { s with
      mem := (s.mem.setState k .unlocked).filelockTreeRemove k
      grants := s.grants.erase g } := by
  have hkey := (h.bound g.inode k hk).2
  have hmem : (s.mem.setState k .unlocked).filelockTreeRemove k =
      { nodes := update s.mem.nodes k ⟨g.inode, .unlocked⟩
        unused := s.mem.unused
        filelockTree := update s.mem.filelockTree g.inode none } := by
    simp [LockTree.filelockTreeRemove, LockTree.setState, hkey]
  have hgone : ∀ g' ∈ s.grants.erase g, g'.inode ≠ g.inode := by
    intro g' hg' hsame
    have hperm := (List.perm_cons_erase hg).countP_eq fun g' => decide (g'.inode = g.inode)
    have hpos : 0 < (s.grants.erase g).countP fun g' => decide (g'.inode = g.inode) :=
      List.countP_pos_iff.mpr ⟨g', hg', decide_eq_true hsame⟩
    rw [List.countP_cons_of_pos (by simp)] at hperm
    omega
  have hold : ∀ {j k'}, update s.mem.filelockTree g.inode none j = some k' →
      j ≠ g.inode ∧ s.mem.filelockTree j = some k' ∧ k' ≠ k := by
    intro j k' hk'
    have hj : j ≠ g.inode := by
      intro heq
      simp [heq] at hk'
    rw [update_of_ne hj] at hk'
    refine ⟨hj, hk', ?_⟩
    rintro rfl
    exact hj ((h.bound j k' hk').2.symm.trans hkey)
  rw [hmem]
  constructor
  · intro j k' hk'
    obtain ⟨-, hk', hne⟩ := hold hk'
    dsimp only
    rw [update_of_ne hne]
    exact h.bound j k' hk'
  · intro j hj g' hg'
    dsimp only at hj
    by_cases hjg : j = g.inode
    · rw [hjg]
      exact hgone g' hg'
    · rw [update_of_ne hjg] at hj
      exact h.absent j hj g' (List.mem_of_mem_erase hg')
  · intro j k' hk'
    obtain ⟨-, hk', hne⟩ := hold hk'
    dsimp only
    rw [update_of_ne hne]
    exact agrees_erase (h.agrees j k' hk')
  · exact h.noInsert

theorem step_treeOk {t : Threads} {e : Event} (hs : TreeOk s) (hcareful : Careful s e)
    (h : step s e = some t) : TreeOk t := by
  cases e with
  | rdlock th i ok =>
    dsimp only [step] at h
    split at h
    · cases h
      exact hs.rdlock th i ok
    · cases h
  | wrlock th i ok =>
    dsimp only [step] at h
    split at h
    · unfold LockTree.sfsWrlockFind at h
      cases hfind : s.mem.filelockTree i with
      | none =>
        simp only [hfind] at h
        cases ok <;> cases h
        · exact hs
        · exact hs.lockNew hfind (Or.inr rfl)
      | some k =>
        simp only [hfind] at h
        cases h
        exact hs.setPc (by simp)
    · cases h
  | wrlockNode th =>
    dsimp only [step] at h
    split at h
    · rename_i k i hpc
      have hlocked := hcareful k (by rw [hpc]; rfl)
      unfold LockTree.sfsWrlockNode at h
      cases hstate : (s.mem.nodes k).state with
      | rdlocked =>
        simp only [hstate] at h
        cases h
        exact hs.setPc (by simp)
      | wrlocked =>
        simp only [hstate] at h
        cases h
        exact hs.setPc (by simp)
      | unlocked => exact absurd hstate hlocked
    · cases h
  | wrlockInsert th =>
    dsimp only [step] at h
    split at h
    · rename_i k i hpc
      exact absurd hpc (hs.noInsert th k i)
    · cases h
  | unlock th i =>
    dsimp only [step] at h
    split at h
    · split at h
      · cases h
      rename_i g hfind
      have hgi : g.inode = i := by
        have := List.find?_some hfind
        simp only [decide_eq_true_eq] at this
        exact this.2
      subst hgi
      unfold LockTree.sfsUnlock at h
      cases hk : s.mem.filelockTree g.inode with
      | none =>
        simp only [hk] at h
        cases h
        exact hs
      | some k =>
        simp only [hk] at h
        cases h
        exact hs.unlock (List.mem_of_find?_eq_some hfind) hcareful hk
    · cases h

theorem reach_treeOk (hr : lockSystem.Reach Careful s) : TreeOk s := by
  apply hr.invariant
  · intro s hs
    rw [show s = start from hs]
    constructor <;> simp [start]
  · intro s e t _ hs hcareful ht
    exact step_treeOk hs hcareful ht

/-- In a careful run, threads that hold locks on one inode at once are all readers. -/
theorem fileLock_exclusion (hr : lockSystem.Reach Careful s) {g' : Grant}
    (hg : g ∈ s.grants) (hg' : g' ∈ s.grants) (hinode : g.inode = g'.inode)
    (hthread : g.thread ≠ g'.thread) : g.mode = .read ∧ g'.mode = .read := by
  have hok := reach_treeOk hr
  cases hk : s.mem.filelockTree g.inode with
  | none => exact absurd rfl (hok.absent g.inode hk g hg)
  | some k =>
    have hagrees := hok.agrees g.inode k hk
    cases hstate : (s.mem.nodes k).state with
    | rdlocked =>
      rw [hstate] at hagrees
      exact ⟨hagrees g hg rfl, hagrees g' hg' hinode.symm⟩
    | wrlocked =>
      rw [hstate] at hagrees
      rw [hagrees g hg g' hg' rfl hinode.symm] at hthread
      exact absurd rfl hthread
    | unlocked =>
      rw [hstate] at hagrees
      exact absurd hagrees id

def twoReaders : List Event :=
  [.rdlock 1 7 true, .rdlock 2 7 true, .wrlock 3 7 true, .wrlockNode 3]

theorem fileLock_exclusion_two :
    ∃ s g g', lockSystem.run Careful start twoReaders = some s ∧ g ∈ s.grants ∧ g' ∈ s.grants ∧
      g.inode = g'.inode ∧ g.thread ≠ g'.thread ∧ g.mode = .read ∧ g'.mode = .read := by
  have hrun : ∃ s, lockSystem.run Careful start twoReaders = some s ∧
      s.grants = [⟨2, 7, .read⟩, ⟨1, 7, .read⟩] := ⟨_, rfl, rfl⟩
  obtain ⟨s, hs, hgrants⟩ := hrun
  have h₁ : ⟨1, 7, .read⟩ ∈ s.grants := by simp [hgrants]
  have h₂ : ⟨2, 7, .read⟩ ∈ s.grants := by simp [hgrants]
  have hboth := fileLock_exclusion (.run (.init rfl) hs) h₁ h₂ rfl (by decide)
  exact ⟨s, _, _, hs, h₁, h₂, rfl, by decide, hboth⟩

def readerLeaves : List Event :=
  [.rdlock 1 7 true, .rdlock 2 7 true, .unlock 1 7, .wrlock 3 7 true]

theorem fileLock_reader_beside_writer :
    ∃ s, lockSystem.Reach System.AnyStep s ∧ ⟨2, 7, .read⟩ ∈ s.grants ∧
      ⟨3, 7, .write⟩ ∈ s.grants := by
  have hrun : ∃ s, lockSystem.run System.AnyStep start readerLeaves = some s ∧
      s.grants = [⟨3, 7, .write⟩, ⟨2, 7, .read⟩] := ⟨_, rfl, rfl⟩
  obtain ⟨s, hs, hgrants⟩ := hrun
  have hreach : lockSystem.Reach System.AnyStep s := .run (.init rfl) hs
  exact ⟨s, hreach, by simp [hgrants], by simp [hgrants]⟩

end SeamlessStack.Locks

import SeamlessStack.Jobs.Completion

/-! How `sfs_process_read_response` chooses the replica for another try. The loop over the replicas
compares with `job->sfsds[0]`, which its own body changes. What the response shows as `read_cmd`,
and the inode that is found by it, are inputs. -/
namespace SeamlessStack.Jobs

variable {σ η : Type}

/-- Several replicas in `i_sfsds`, with different handles, and that in `i_primary_sfsd`. -/
structure ReplicatedInode (σ η : Type) where
  handle : σ → η
  iSfsds : List σ
  iPrimarySfsd : σ
  distinct : (iSfsds.map handle).Nodup
  several : 2 ≤ iSfsds.length

namespace ReplicatedInode

def iNumreplicas (inode : ReplicatedInode σ η) : ℕ := inode.iSfsds.length

theorem mod_lt_length (inode : ReplicatedInode σ η) (i : ℕ) :
    i % inode.iSfsds.length < inode.iSfsds.length :=
  Nat.mod_lt i (Nat.lt_of_lt_of_le Nat.two_pos inode.several)

def replica (inode : ReplicatedInode σ η) (i : ℕ) : σ :=
  inode.iSfsds.get ⟨i % inode.iSfsds.length, inode.mod_lt_length i⟩

def IsPrimary (inode : ReplicatedInode σ η) (i : ℕ) : Prop :=
  inode.handle (inode.replica i) = inode.handle inode.iPrimarySfsd

theorem two_le (inode : ReplicatedInode σ η) : 2 ≤ inode.iNumreplicas := inode.several

theorem replica_length {inode : ReplicatedInode σ η} :
    inode.replica inode.iNumreplicas = inode.replica 0 := by
  unfold replica iNumreplicas
  congr 2
  simp

theorem handle_replica_inj {inode : ReplicatedInode σ η} {i j : ℕ} (hi : i < inode.iNumreplicas)
    (hj : j < inode.iNumreplicas) :
    inode.handle (inode.replica i) = inode.handle (inode.replica j) ↔ i = j := by
  refine ⟨fun h => ?_, fun h => h ▸ rfl⟩
  have hsame : inode.replica i = inode.replica j :=
    List.inj_on_of_nodup_map inode.distinct (List.get_mem ..) (List.get_mem ..) h
  have hindex : i % inode.iNumreplicas = j % inode.iNumreplicas :=
    Fin.val_eq_of_eq ((List.Nodup.get_inj_iff inode.distinct.of_map).mp hsame)
  rwa [Nat.mod_eq_of_lt hi, Nat.mod_eq_of_lt hj] at hindex

theorem isPrimary_iff {inode : ReplicatedInode σ η} {i p : ℕ} (hp : p < inode.iNumreplicas)
    (hprimary : inode.IsPrimary p) (hi : i < inode.iNumreplicas) : inode.IsPrimary i ↔ i = p := by
  unfold IsPrimary at hprimary ⊢
  rw [← hprimary, handle_replica_inj hi hp]

theorem iSfsds_of_two {inode : ReplicatedInode σ η} (h : inode.iNumreplicas = 2) :
    inode.iSfsds = [inode.replica 0, inode.replica 1] := by
  obtain ⟨handle, iSfsds, iPrimarySfsd, distinct, several⟩ := inode
  obtain ⟨a, b, rfl⟩ := List.length_eq_two.mp h
  rfl

variable [DecidableEq η]

instance (inode : ReplicatedInode σ η) (i : ℕ) : Decidable (inode.IsPrimary i) :=
  inferInstanceAs (Decidable (_ = _))

end ReplicatedInode

variable [DecidableEq η]

/-- `job->sfsds[0]`, the `read_ecode`, and whether `job->payload` was set to the response. -/
structure RetryJob (σ : Type) where
  sfsd : σ
  readEcode : Bool
  payloadSet : Bool
  deriving DecidableEq, Repr

def retryTurn (inode : ReplicatedInode σ η) (job : RetryJob σ) (i : ℕ) : RetryJob σ :=
  if inode.handle (inode.replica i) = inode.handle job.sfsd then
    if inode.IsPrimary (i + 1) then ⟨inode.replica (i + 1), true, true⟩
    else { job with sfsd := inode.replica (i + 1) }
  else job

/-- What is made of a checksum or memory error. `found` is the answer of `get_inode`. -/
def processReadError (found : Option (ReplicatedInode σ η)) (job : RetryJob σ) :
    Retry × RetryJob σ :=
  match found with
  | none => (.giveUp, job)
  | some inode =>
    if job.readEcode then (.giveUp, job)
    else
      let job' := (List.range inode.iNumreplicas).foldl (retryTurn inode) job
      (.resubmit job'.payloadSet, job')

namespace ReplicatedInode
variable (inode : ReplicatedInode σ η)

def failedRead (r : ℕ) : RetryJob σ := ⟨inode.replica r, false, false⟩

/-- The job goes to the next replica, and asks for the erasure code if that is the primary. -/
def TriesNext (r : ℕ) : Prop :=
  (processReadError (some inode) (inode.failedRead r)).2.sfsd = inode.replica (r + 1) ∧
    ((processReadError (some inode) (inode.failedRead r)).2.readEcode = true ↔
      inode.IsPrimary (r + 1))

def afterFailures (p k : ℕ) : RetryJob σ :=
  (fun job => (processReadError (some inode) job).2)^[k] (inode.failedRead p)

/-- From replica `p` on, every replica is tried once until the erasure code is asked for. -/
def TriesAll (p : ℕ) : Prop :=
  ∃ k, (∀ i < k, (inode.afterFailures p i).readEcode = false) ∧
    (inode.afterFailures p k).readEcode = true ∧
    ((List.range k).map fun i => (inode.afterFailures p i).sfsd).Perm inode.iSfsds

variable {inode} {r p k : ℕ}

/-- The turn that comes to the replica in the job moves the job to the next, found again. -/
theorem foldl_retryTurn (hr : r < inode.iNumreplicas) (hk : k ≤ inode.iNumreplicas) :
    ((List.range k).foldl (retryTurn inode) (inode.failedRead r)).sfsd =
        inode.replica (max r k) ∧
      (((List.range k).foldl (retryTurn inode) (inode.failedRead r)).readEcode = true ↔
        ∃ i, r < i ∧ i ≤ k ∧ inode.IsPrimary i) := by
  induction k with
  | zero => simp [failedRead]
  | succ k ih =>
    obtain ⟨hsfsd, hecode⟩ := ih (Nat.le_of_succ_le hk)
    rw [List.range_succ, List.foldl_append, List.foldl_cons, List.foldl_nil]
    generalize (List.range k).foldl (retryTurn inode) (inode.failedRead r) = job at hsfsd hecode
    by_cases hle : r ≤ k
    · rw [max_eq_right hle] at hsfsd
      rw [max_eq_right (Nat.le_succ_of_le hle), retryTurn, hsfsd, if_pos rfl]
      by_cases hprimary : inode.IsPrimary (k + 1)
      · rw [if_pos hprimary]
        exact ⟨rfl, iff_of_true rfl ⟨k + 1, by omega, le_rfl, hprimary⟩⟩
      · rw [if_neg hprimary]
        refine ⟨rfl, hecode.trans ?_⟩
        constructor
        · rintro ⟨i, hri, hik, hi⟩
          exact ⟨i, hri, Nat.le_succ_of_le hik, hi⟩
        · rintro ⟨i, hri, hik, hi⟩
          have hne : i ≠ k + 1 := by
            rintro rfl
            exact hprimary hi
          exact ⟨i, hri, by omega, hi⟩
    · -- the loop has not yet come to the replica that failed
      rw [max_eq_left (by omega)] at hsfsd
      have hturn : retryTurn inode job k = job := by
        unfold retryTurn
        rw [hsfsd, if_neg]
        rw [handle_replica_inj (by omega) hr]
        omega
      rw [hturn, max_eq_left (by omega)]
      refine ⟨hsfsd, hecode.trans ?_⟩
      exact iff_of_false (by rintro ⟨i, hri, hik, -⟩; omega) (by rintro ⟨i, hri, hik, -⟩; omega)

theorem processReadError_failedRead (hr : r < inode.iNumreplicas) :
    (processReadError (some inode) (inode.failedRead r)).2.sfsd = inode.replica 0 ∧
      ((processReadError (some inode) (inode.failedRead r)).2.readEcode = true ↔
        ∃ i, r < i ∧ i ≤ inode.iNumreplicas ∧ inode.IsPrimary i) := by
  have hloop := foldl_retryTurn hr le_rfl
  rw [max_eq_right hr.le, replica_length] at hloop
  exact hloop

theorem triesNext_iff (hr : r < inode.iNumreplicas) :
    inode.TriesNext r ↔ r + 1 = inode.iNumreplicas := by
  obtain ⟨hsfsd, hecode⟩ := processReadError_failedRead hr
  unfold TriesNext
  rw [hsfsd, hecode]
  constructor
  · rintro ⟨hnext, -⟩
    by_contra hlast
    have hzero := (handle_replica_inj (by omega) (by omega)).mp (congrArg inode.handle hnext)
    omega
  · intro hlast
    rw [hlast, replica_length]
    refine ⟨rfl, ?_, ?_⟩
    · rintro ⟨i, hri, hin, hi⟩
      obtain rfl : i = inode.iNumreplicas := by omega
      exact hi
    · intro hprimary
      exact ⟨inode.iNumreplicas, by omega, le_rfl, hprimary⟩

theorem foldl_retryTurn_payloadSet {job : RetryJob σ} (h : job.payloadSet = job.readEcode)
    (is : List ℕ) :
    (is.foldl (retryTurn inode) job).payloadSet = (is.foldl (retryTurn inode) job).readEcode := by
  induction is generalizing job with
  | nil => exact h
  | cons i is ih =>
    apply ih
    unfold retryTurn
    split_ifs
    · rfl
    · exact h
    · exact h

/-- The first failure asks for the erasure code if the primary is the first replica; otherwise the
job goes to the first replica, and the second failure asks. -/
theorem afterFailures_primary (hp : p < inode.iNumreplicas) (hprimary : inode.IsPrimary p) :
    ((inode.afterFailures p 1).readEcode = true ↔ p = 0) ∧
      (p ≠ 0 → inode.afterFailures p 1 = inode.failedRead 0 ∧
        (inode.afterFailures p 2).readEcode = true) := by
  obtain ⟨hsfsd, hecode⟩ := processReadError_failedRead hp
  have hfirst : (inode.afterFailures p 1).readEcode = true ↔ p = 0 := by
    refine hecode.trans ⟨?_, ?_⟩
    · rintro ⟨i, hpi, hin, hi⟩
      have hlast : i = inode.iNumreplicas := by
        by_contra hne
        have hsame := (isPrimary_iff hp hprimary (by omega)).mp hi
        omega
      subst hlast
      unfold IsPrimary at hi
      rw [replica_length] at hi
      exact ((isPrimary_iff hp hprimary (by omega)).mp hi).symm
    · rintro rfl
      refine ⟨inode.iNumreplicas, by omega, le_rfl, ?_⟩
      unfold IsPrimary at hprimary ⊢
      rwa [replica_length]
  refine ⟨hfirst, fun hne => ?_⟩
  have hjob : inode.afterFailures p 1 = inode.failedRead 0 := by
    have hpayload : (inode.afterFailures p 1).payloadSet = (inode.afterFailures p 1).readEcode :=
      foldl_retryTurn_payloadSet rfl _
    have hunset : (inode.afterFailures p 1).readEcode = false := by
      rw [← Bool.not_eq_true, hfirst]
      exact hne
    rw [hunset] at hpayload
    generalize hafter : inode.afterFailures p 1 = job at hpayload hunset
    have hat : job.sfsd = inode.replica 0 := hafter ▸ hsfsd
    obtain ⟨sfsd, readEcode, payloadSet⟩ := job
    dsimp only at hpayload hunset hat
    rw [hpayload, hunset, hat]
    rfl
  refine ⟨hjob, ?_⟩
  have hsecond : inode.afterFailures p 2 =
      (processReadError (some inode) (inode.afterFailures p 1)).2 := rfl
  rw [hsecond, hjob, (processReadError_failedRead (by omega)).2]
  exact ⟨p, by omega, hp.le, hprimary⟩

theorem triesAll_iff_of_first {m : ℕ}
    (hbefore : ∀ i < m, (inode.afterFailures p i).readEcode = false)
    (hm : (inode.afterFailures p m).readEcode = true) :
    inode.TriesAll p ↔
      ((List.range m).map fun i => (inode.afterFailures p i).sfsd).Perm inode.iSfsds := by
  refine ⟨?_, fun hperm => ⟨m, hbefore, hm, hperm⟩⟩
  rintro ⟨k, hbeforek, hk, hperm⟩
  obtain hlt | rfl | hlt := Nat.lt_trichotomy k m
  · rw [hbefore k hlt] at hk
    cases hk
  · exact hperm
  · rw [hbeforek m hlt] at hm
    cases hm

theorem triesAll_iff (hp : p < inode.iNumreplicas) (hprimary : inode.IsPrimary p) :
    inode.TriesAll p ↔ inode.iNumreplicas = 2 ∧ p = 1 := by
  have htwo := two_le inode
  obtain ⟨hfirst, hsecond⟩ := afterFailures_primary hp hprimary
  by_cases hzero : p = 0
  · rw [triesAll_iff_of_first (m := 1) (by simp [afterFailures, failedRead]) (hfirst.mpr hzero)]
    refine iff_of_false (fun hperm => ?_) (by omega)
    have hlength := hperm.length_eq
    rw [List.length_map, List.length_range] at hlength
    exact absurd htwo (by unfold iNumreplicas; omega)
  · obtain ⟨hjob, hecode⟩ := hsecond hzero
    have hbefore : ∀ i < 2, (inode.afterFailures p i).readEcode = false := by
      intro i hi
      obtain rfl | rfl : i = 0 ∨ i = 1 := by omega
      · rfl
      · rw [hjob]
        rfl
    have htried : (List.range 2).map (fun i => (inode.afterFailures p i).sfsd) =
        [inode.replica p, inode.replica 0] := by
      have hlist : (List.range 2).map (fun i => (inode.afterFailures p i).sfsd) =
          [inode.replica p, (inode.afterFailures p 1).sfsd] := rfl
      rw [hlist, hjob]
      rfl
    rw [triesAll_iff_of_first hbefore hecode, htried]
    constructor
    · intro hperm
      have hlength : 2 = inode.iNumreplicas := hperm.length_eq
      omega
    · rintro ⟨hlen, rfl⟩
      rw [iSfsds_of_two hlen]
      exact List.Perm.swap ..

end ReplicatedInode

/-- The next replica is chosen only after the last one, and all are tried only if there are two and
the second is the primary. -/
theorem readRetry_iff (inode : ReplicatedInode σ η) :
    (∀ r < inode.iNumreplicas, inode.TriesNext r ↔ r + 1 = inode.iNumreplicas) ∧
      ∀ p < inode.iNumreplicas, inode.IsPrimary p →
        (inode.TriesAll p ↔ inode.iNumreplicas = 2 ∧ p = 1) :=
  ⟨fun _ => ReplicatedInode.triesNext_iff, fun _ => ReplicatedInode.triesAll_iff⟩

theorem nodup_zero_one_two : (([0, 1, 2] : List (Fin 3)).map id).Nodup := by decide

theorem nodup_zero_one : (([0, 1] : List (Fin 2)).map id).Nodup := by decide

def threeReplicas : ReplicatedInode (Fin 3) (Fin 3) :=
  ⟨id, [0, 1, 2], 0, nodup_zero_one_two, Nat.le_succ 2⟩

def twoReplicas : ReplicatedInode (Fin 2) (Fin 2) := ⟨id, [0, 1], 1, nodup_zero_one, le_rfl⟩

theorem readRetry_two : twoReplicas.TriesNext 1 ∧ twoReplicas.TriesAll 1 := by
  obtain ⟨hnext, hall⟩ := readRetry_iff twoReplicas
  exact ⟨(hnext 1 (by decide)).mpr rfl, (hall 1 (by decide) (by decide)).mpr ⟨rfl, rfl⟩⟩

/-- The read from the primary fails, and the job goes back to the primary for the erasure code. -/
theorem readRetry_skips :
    processReadError (some threeReplicas) ⟨0, false, false⟩ = (.resubmit true, ⟨0, true, true⟩) ∧
      ¬ threeReplicas.TriesNext 0 ∧ ¬ threeReplicas.TriesAll 0 := by
  refine ⟨by decide, ?_, ?_⟩
  · rw [ReplicatedInode.triesNext_iff (by decide)]
    decide
  · rw [ReplicatedInode.triesAll_iff (by decide) (by decide)]
    decide

end SeamlessStack.Jobs

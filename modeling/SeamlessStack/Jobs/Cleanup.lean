import SeamlessStack.Jobs.Calls

/-! What the calls leave behind. Nothing ever frees a job id, so a call that made a job leaves its
bits set for good. -/
namespace SeamlessStack.Jobs

open Lib Function

/-- Ids are taken and not given back, and a mutex that was left locked stays so. -/
structure JobIds.Grows (s t : JobIds) : Prop where
  length : t.bitmap.length = s.bitmap.length
  bits : ∀ i, s.bitmap.test i = true → t.bitmap.test i = true
  held : s.held = true → t.held = true

theorem JobIds.Grows.refl (s : JobIds) : s.Grows s := ⟨rfl, fun _ h => h, fun h => h⟩

theorem JobIds.grows_set {s : JobIds} (hl : s.bitmap.length = maxOutstandingJobs / 8)
    (hheld : s.held = false) {i : ℕ} (hi : i < maxOutstandingJobs) (n : ℕ) :
    s.Grows ⟨s.bitmap.set i, n, false⟩ ∧ (s.bitmap.set i).test i = true := by
  have htest : ∀ j, (s.bitmap.set i).test j = (decide (j = i) || s.bitmap.test j) := by
    intro j
    exact Bitmap.test_set (slot_lt hl hi)
  refine ⟨⟨Bitmap.set_length _ _, ?_, ?_⟩, ?_⟩
  · intro j hj
    show (s.bitmap.set i).test j = true
    rw [htest, hj, Bool.or_true]
  · intro h
    rw [hheld] at h
    cases h
  · rw [htest, decide_eq_true rfl, Bool.true_or]

/-- The id that is returned is set, and a return without one leaves the mutex locked. -/
theorem getNextJobId_grows {s t : JobIds} {r : Option ℕ}
    (hl : s.bitmap.length = maxOutstandingJobs / 8) (h : getNextJobId s = some (r, t)) :
    s.held = false ∧ s.Grows t ∧ (∀ i ∈ r.toList, t.bitmap.test i = true) ∧
      (r = none → t.held = true) := by
  simp only [getNextJobId] at h
  split at h
  · cases h
  rename_i hheld
  rw [Bool.not_eq_true] at hheld
  refine ⟨hheld, ?_⟩
  split at h
  · split at h
    · cases h
      exact ⟨⟨rfl, fun _ hi => hi, fun _ => rfl⟩, by simp, fun _ => rfl⟩
    · rename_i hne
      cases h
      have hle := Bitmap.firstUnset_le s.bitmap 0 maxOutstandingJobs
      obtain ⟨hgrows, hset⟩ := JobIds.grows_set hl hheld
        (show s.bitmap.firstUnset 0 maxOutstandingJobs < maxOutstandingJobs by omega)
          (nextJobId _ _)
      exact ⟨hgrows, by simpa using hset, by simp⟩
  · rename_i hlt
    cases h
    obtain ⟨hgrows, hset⟩ := JobIds.grows_set hl hheld (not_le.mp hlt) (s.currentJobId + 1)
    exact ⟨hgrows, by simpa using hset, by simp⟩

namespace CallPc

def takesId : CallPc → Bool
  | .firstId _ | .nextId _ => true
  | _ => false

def Owes (held : Bool) : CallPc → Prop
  | .firstId _ => True
  | .nextId _ => held = true
  | _ => False

def mapped : CallPc → Bool
  | .wait | .report _ | .contextRemove => true
  | _ => false

/-- Where `sfs_unlink` and `sfs_rmdir` never get. -/
def beyond : CallPc → Bool
  | .mapInsert _ | .submit _ | .contextInsert | .wait | .report _ | .contextRemove => true
  | _ => false

def quiet (p q : CallPc) : Bool := !p.takesId && !q.takesId && (!p.mapped || q.mapped)

theorem Owes.takesId {held : Bool} {pc : CallPc} (h : pc.Owes held) : pc.takesId = true := by
  cases pc <;> first | rfl | exact h.elim

end CallPc

/-- What the state holds for the call `c` of a thread, by where it stands. -/
structure Call.Accounted (s : Process) (thread : ℕ) (c : Call) : Prop where
  bits : ∀ id ∈ c.ids, s.ids.bitmap.test id = true
  mapped : thread ∈ s.jobmapTree → c.pc.mapped = true
  beyond : c.pc.beyond = true → c.args.entry.loops = true
  owes : c.made ≠ [] → c.ids ≠ [] ∨ c.pc.Owes s.ids.held
  fresh : c.made = [] → c.ids = [] ∧ c.pc.takesId = false

structure Process.Ledger (s : Process) : Prop where
  length : s.ids.bitmap.length = maxOutstandingJobs / 8
  calls : ∀ thread c, s.calls thread = some c → c.Accounted s thread
  idle : ∀ thread, s.calls thread = none → thread ∉ s.jobmapTree

variable {s t : Process} {thread : ℕ} {c c' : Call}

theorem Call.Accounted.not_mem (h : c.Accounted s thread) (hpc : c.pc.mapped = false) :
    thread ∉ s.jobmapTree := by
  intro hin
  rw [h.mapped hin] at hpc
  cases hpc

theorem Call.Accounted.mono (h : c.Accounted s thread) (hids : s.ids.Grows t.ids)
    (htree : thread ∈ t.jobmapTree → thread ∈ s.jobmapTree) : c.Accounted t thread where
  bits := fun id hid => hids.bits id (h.bits id hid)
  mapped := fun hin => h.mapped (htree hin)
  beyond := h.beyond
  owes := by
    intro hmade
    obtain hids' | howes := h.owes hmade
    · exact Or.inl hids'
    · right
      unfold CallPc.Owes at howes ⊢
      split at howes
      · trivial
      · exact hids.held howes
      · exact howes
  fresh := h.fresh

theorem Process.Ledger.put (h : s.Ledger) (hids : s.ids.Grows t.ids)
    (htree : ∀ other ≠ thread, other ∈ t.jobmapTree → other ∈ s.jobmapTree)
    (hcalls : t.calls = update s.calls thread (some c))
    (hc : c.Accounted t thread) : t.Ledger where
  length := hids.length.trans h.length
  calls := by
    intro other c' hother
    rw [hcalls] at hother
    by_cases heq : other = thread
    · subst heq
      rw [update_self] at hother
      cases hother
      exact hc
    · rw [update_of_ne heq] at hother
      exact (h.calls other c' hother).mono hids (htree other heq)
  idle := by
    intro other hother hin
    rw [hcalls] at hother
    by_cases heq : other = thread
    · subst heq
      rw [update_self] at hother
      cases hother
    · rw [update_of_ne heq] at hother
      exact h.idle other hother (htree other heq hin)

theorem Process.Ledger.move (h : s.Ledger) (hc : s.calls thread = some c)
    (hcalls : t.calls = update s.calls thread (some c'))
    (hids : t.ids = s.ids)
    (htree : ∀ other ≠ thread, other ∈ t.jobmapTree → other ∈ s.jobmapTree)
    (hsame : (c'.args, c'.ids, c'.made) = (c.args, c.ids, c.made))
    (hold : c.pc.takesId = false) (hnew : c'.pc.takesId = false)
    (hmapped : thread ∈ t.jobmapTree → c'.pc.mapped = true)
    (hbeyond : c'.pc.beyond = true → c.args.entry.loops = true) : t.Ledger := by
  have hacc := h.calls thread c hc
  obtain ⟨hargs, hown, hmade⟩ : c'.args = c.args ∧ c'.ids = c.ids ∧ c'.made = c.made := by
    simpa using hsame
  apply h.put (hids ▸ .refl s.ids) htree hcalls
  constructor
  · rw [hids, hown]
    exact hacc.bits
  · exact hmapped
  · rw [hargs]
    exact hbeyond
  · rw [hmade, hown]
    intro hne
    obtain hne | howes := hacc.owes hne
    · exact Or.inl hne
    · rw [howes.takesId] at hold
      cases hold
  · rw [hmade, hown]
    intro hnil
    exact ⟨(hacc.fresh hnil).1, hnew⟩

/-- A call for an id. The mutex was free: a call for its second id has got the first. -/
theorem Process.Ledger.takeId (h : s.Ledger) (hc : s.calls thread = some c)
    {pc : Option ℕ → CallPc} (hpc : c.pc.takesId = true) (hunmapped : c.pc.mapped = false)
    (hbeyond : ∀ r, (pc r).beyond = false) (hnext : c.pc.Owes false → (pc none).Owes true)
    (ht : s.takeId thread c pc = some t) : t.Ledger := by
  have hacc := h.calls thread c hc
  have hmade : c.made ≠ [] := by
    intro hnil
    rw [(hacc.fresh hnil).2] at hpc
    cases hpc
  obtain ⟨⟨r, ids⟩, hget, rfl⟩ := Option.map_eq_some_iff.mp ht
  obtain ⟨hheld, hgrows, hset, hnone⟩ := getNextJobId_grows h.length hget
  refine h.put hgrows ?_ rfl ?_
  · intro _ _ hin
    exact hin
  constructor
  · intro id hid
    obtain hid | hid := List.mem_append.mp hid
    · exact hgrows.bits id (hacc.bits id hid)
    · exact hset id hid
  · intro hin
    exact absurd hin (hacc.not_mem hunmapped)
  · intro hb
    rw [hbeyond r] at hb
    cases hb
  · intro _
    cases r with
    | some id => exact Or.inl (by simp)
    | none =>
      obtain hne | howes := hacc.owes hmade
      · exact Or.inl (by simpa using hne)
      · rw [hheld] at howes
        right
        show (pc none).Owes ids.held
        rw [hnone rfl]
        exact hnext howes
  · intro hnil
    exact absurd hnil hmade

theorem Process.Ledger.frame (h : s.Ledger)
    (hframe : (t.ids, t.jobmapTree, t.calls) = (s.ids, s.jobmapTree, s.calls)) : t.Ledger := by
  simp only [Prod.mk.injEq] at hframe
  obtain ⟨hids, htree, hcalls⟩ := hframe
  constructor
  · rw [hids, h.length]
  · intro thread c hc
    rw [hcalls] at hc
    exact (h.calls thread c hc).mono (hids ▸ .refl s.ids) (fun hin => htree ▸ hin)
  · rw [hcalls, htree]
    exact h.idle

theorem Process.job2threadMapInsert_frame (s : Process) (id : Option ℕ) (job : ℕ) :
    ((s.job2threadMapInsert id job).ids, (s.job2threadMapInsert id job).jobmapTree,
      (s.job2threadMapInsert id job).calls) = (s.ids, s.jobmapTree, s.calls) := by
  unfold Process.job2threadMapInsert
  split <;> rfl

theorem Process.Ledger.go {u : Process} (h : s.Ledger) (hc : s.calls thread = some c)
    (hframe : (u.ids, u.jobmapTree, u.calls) = (s.ids, s.jobmapTree, s.calls))
    (hsame : (c'.args, c'.ids, c'.made) = (c.args, c.ids, c.made))
    (hquiet : c.pc.quiet c'.pc = true)
    (hbeyond : c'.pc.beyond = true → c.args.entry.loops = true) : (u.put thread c').Ledger := by
  simp only [CallPc.quiet, Bool.and_eq_true, Bool.or_eq_true, Bool.not_eq_true'] at hquiet
  obtain ⟨⟨hold, hnew⟩, hkeep⟩ := hquiet
  simp only [Prod.mk.injEq] at hframe
  obtain ⟨hids, htree, hcalls⟩ := hframe
  refine h.move hc ?_ hids ?_ hsame hold hnew ?_ hbeyond
  · rw [← hcalls]
    rfl
  · intro other _ hin
    rwa [← htree]
  · intro hin
    have hmapped := (h.calls thread c hc).mapped (htree ▸ hin)
    rw [hmapped] at hkeep
    exact hkeep.resolve_left (by decide)

theorem Process.Ledger.quit (h : s.Ledger) (hc : s.calls thread = some c)
    (hquiet : c.pc.quiet .returned = true) : (s.go thread c .returned).Ledger :=
  h.go hc rfl rfl hquiet nofun

theorem Process.Ledger.leave (h : s.Ledger) (hc : s.calls thread = some c)
    (hold : c.pc.takesId = false) :
    ((s.jobContextRemove thread).go thread c .returned).Ledger := by
  refine h.move hc rfl rfl ?_ rfl hold rfl ?_ nofun
  · intro other _ hin
    exact (List.mem_filter.mp hin).1
  · intro hin
    have := (List.mem_filter.mp hin).2
    simp at this

theorem Process.Ledger.enter (h : s.Ledger) (hc : s.calls thread = some c)
    (hpc : c.pc = .contextInsert) : ((s.jobContextInsert thread).go thread c .wait).Ledger := by
  have hacc := h.calls thread c hc
  have hnot : thread ∉ s.jobmapTree := hacc.not_mem (by rw [hpc]; rfl)
  unfold Process.jobContextInsert
  rw [if_neg hnot]
  refine h.move hc rfl rfl ?_ rfl (by rw [hpc]; rfl) rfl (fun _ => rfl) ?_
  · intro other hne hin
    exact (List.mem_cons.mp hin).resolve_left hne
  · intro _
    exact hacc.beyond (by rw [hpc]; rfl)

theorem Process.Ledger.make (h : s.Ledger) (hc : s.calls thread = some c)
    (hpc : c.pc = .jobInit) :
    ({ s with nextJob := s.nextJob + 1 }.put thread
      { c with pc := .firstId s.nextJob, made := c.made ++ [s.nextJob] }).Ledger := by
  have hacc := h.calls thread c hc
  refine h.put (.refl s.ids) ?_ rfl ⟨hacc.bits, ?_, nofun, fun _ => Or.inr trivial, ?_⟩
  · intro _ _ hin
    exact hin
  · intro hin
    exact absurd hin (hacc.not_mem (by rw [hpc]; rfl))
  · intro hnil
    simp at hnil

theorem Process.Ledger.submit (h : s.Ledger) (hc : s.calls thread = some c) {d : Draft}
    (hpc : c.pc = .submit d) : (s.submit thread c d).Ledger := by
  have hloops := (h.calls thread c hc).beyond (by rw [hpc]; rfl)
  simp only [Process.submit]
  split
  · exact h.frame rfl
  · rw [hloops]
    exact h.go (c := c) hc rfl rfl (by rw [hpc]; rfl) nofun
  · exact (h.leave hc (by rw [hpc]; rfl)).frame rfl

theorem Process.Ledger.report (h : s.Ledger) (hc : s.calls thread = some c) {id : Option ℕ}
    {jobIds : List (Option ℕ)} (hpc : c.pc = .report (id :: jobIds)) :
    (s.report thread c id jobIds).Ledger := by
  unfold Process.report
  split
  · exact h.frame rfl
  · refine h.go (c := c) hc rfl rfl (by rw [hpc]; rfl) ?_
    intro _
    exact (h.calls thread c hc).beyond (by rw [hpc]; rfl)

theorem advance_ledger (h : s.Ledger) (hc : s.calls thread = some c) {x : Outcome}
    (ht : s.advance thread c x = some t) : t.Ledger := by
  have hacc := h.calls thread c hc
  obtain ⟨args, pc, bytesLeft, bytesIssued, jobIds, ids, made⟩ := c
  cases pc with
  | createJobMap =>
    cases ht
    split
    · exact h.go hc rfl rfl rfl nofun
    · exact h.quit hc rfl
  | jobInit =>
    simp only [Process.advance] at ht
    split at ht
    · rename_i hdone
      cases ht
      exact h.go hc rfl rfl rfl (fun _ => hdone.1)
    · split at ht
      · cases ht
        exact h.make hc rfl
      · cases ht
        exact h.quit hc rfl
  | firstId job =>
    simp only [Process.advance] at ht
    refine h.takeId hc rfl rfl ?_ ?_ ht
    · intro _
      rfl
    · intro _
      rfl
  | nextId job =>
    simp only [Process.advance] at ht
    refine h.takeId hc rfl rfl ?_ nofun ht
    intro _
    rfl
  | payload job id =>
    simp only [Process.advance] at ht
    split at ht
    · cases ht
      exact h.frame rfl
    · cases ht
      exact h.go hc rfl rfl rfl nofun
  | jobIds d =>
    simp only [Process.advance] at ht
    split at ht
    · cases ht
      exact h.go hc rfl rfl rfl nofun
    · cases ht
      exact h.quit hc rfl
  | jobStatus d =>
    simp only [Process.advance] at ht
    split at ht
    · split at ht
      · rename_i hloops
        cases ht
        exact h.go hc rfl rfl rfl (fun _ => hloops)
      · cases ht
        exact h.frame rfl
    · cases ht
      exact h.quit hc rfl
  | mapInsert d =>
    simp only [Process.advance] at ht
    split at ht
    · cases ht
      exact h.go hc (s.job2threadMapInsert_frame _ _) rfl rfl (fun _ => hacc.beyond rfl)
    · cases ht
      exact h.leave hc rfl
  | submit d =>
    cases ht
    exact h.submit hc rfl
  | contextInsert =>
    simp only [Process.advance] at ht
    split at ht
    · cases ht
      exact h.enter hc rfl
    · cases ht
      exact h.quit hc rfl
  | wait =>
    have hloops := hacc.beyond rfl
    obtain ⟨entry, size, offset, iSize⟩ := args
    cases entry with
    | read =>
      cases ht
      split
      · exact h.go hc rfl rfl rfl (fun _ => rfl)
      · exact h.go hc rfl rfl rfl (fun _ => rfl)
    | write =>
      cases ht
      exact h.go hc rfl rfl rfl (fun _ => rfl)
    | unlink => cases hloops
    | rmdir => cases hloops
  | report jobIds =>
    cases jobIds with
    | nil =>
      cases ht
      exact h.go hc rfl rfl rfl (fun _ => hacc.beyond rfl)
    | cons id jobIds =>
      cases ht
      exact h.report hc rfl
  | contextRemove =>
    cases ht
    exact h.leave hc rfl
  | returned => cases ht

theorem Process.Ledger.start (h : s.Ledger) (hnot : thread ∉ s.jobmapTree) (args : Args) :
    (s.put thread (.start args)).Ledger := by
  refine h.put (.refl s.ids) ?_ rfl ⟨by simp [Call.start], ?_, nofun, by simp [Call.start], ?_⟩
  · intro _ _ hin
    exact hin
  · intro hin
    exact absurd hin hnot
  · intro _
    exact ⟨rfl, rfl⟩

theorem callStep_ledger {e : CallEvent} (h : s.Ledger) (ht : callStep s e = some t) :
    t.Ledger := by
  unfold callStep at ht
  split at ht
  · cases ht
  cases e with
  | call thread args =>
    cases hc : s.calls thread with
    | none =>
      simp only [hc] at ht
      cases ht
      exact h.start (h.idle thread hc) args
    | some c =>
      simp only [hc] at ht
      split at ht
      · rename_i hpc
        cases ht
        exact h.start ((h.calls thread c hc).not_mem (by rw [hpc]; rfl)) args
      · cases ht
  | advance thread x =>
    cases hc : s.calls thread with
    | none =>
      simp only [hc] at ht
      cases ht
    | some c =>
      simp only [hc] at ht
      exact advance_ledger h hc ht
  | pass =>
    obtain ⟨queues, -, rfl⟩ := Option.map_eq_some_iff.mp ht
    exact h.frame rfl
  | iterate =>
    obtain ⟨queues, -, rfl⟩ := Option.map_eq_some_iff.mp ht
    exact h.frame rfl

theorem init_ledger : Process.Ledger .init where
  length := init_faithful.length
  calls := nofun
  idle := fun _ _ => List.not_mem_nil

theorem reach_ledger (hr : callSystem.Reach System.AnyStep s) : s.Ledger := by
  apply hr.invariant
  · intro s hs
    rw [show s = _ from hs]
    exact init_ledger
  · intro s e t _ h _ ht
    exact callStep_ledger h ht

/-- A call that has returned left everything clean exactly when it never made a job. -/
theorem calls_clean_iff (hr : callSystem.Reach System.AnyStep s)
    (hc : s.calls thread = some c) (hpc : c.pc = .returned) :
    s.Clean thread c ↔ c.made = [] := by
  have h := (reach_ledger hr).calls thread c hc
  constructor
  · intro hclean
    by_contra hmade
    obtain hids | howes := h.owes hmade
    · obtain ⟨id, hid⟩ := List.exists_mem_of_ne_nil _ hids
      have hset := h.bits id hid
      rw [hclean.bitmap id hid] at hset
      cases hset
    · rw [hpc] at howes
      exact howes
  · intro hmade
    have hids := (h.fresh hmade).1
    constructor
    · simp [hids]
    · exact h.not_mem (by rw [hpc]; rfl)
    · simp [hids]
    · simp [hmade]

def granted : CallEvent := .advance 7 ⟨true, some 4, 0⟩

/-- A read of nothing makes no job. -/
theorem calls_clean_iff_empty : ∃ s c, callSystem.Reach System.AnyStep s ∧ s.calls 7 = some c ∧
    c.args = ⟨.read, 0, 0, 4⟩ ∧ c.pc = .returned ∧ s.Clean 7 c := by
  have hrun : ∃ s c, callSystem.run System.AnyStep .init
      (.call 7 ⟨.read, 0, 0, 4⟩ :: List.replicate 6 granted) = some s ∧ s.calls 7 = some c ∧
      c.args = ⟨.read, 0, 0, 4⟩ ∧ c.pc = .returned ∧ c.made = [] :=
    ⟨_, _, rfl, rfl, rfl, rfl, rfl⟩
  obtain ⟨s, c, hs, hc, hargs, hpc, hmade⟩ := hrun
  have hr : callSystem.Reach System.AnyStep s := .run (.init rfl) hs
  exact ⟨s, c, hr, hc, hargs, hpc, (calls_clean_iff hr hc hpc).mpr hmade⟩

/-- A read of 5 bytes from a file of 4: the bit of its job id stays set, and the job is freed while
linked in `pending_jobs`. -/
theorem calls_leave_job : ∃ s c, callSystem.Reach System.AnyStep s ∧ s.calls 7 = some c ∧
    c.args = ⟨.read, 5, 0, 4⟩ ∧ c.pc = .returned ∧ c.jobIds = [some 1] ∧
    s.ids.bitmap.test 1 = true ∧ 0 ∈ s.freed ∧
    0 ∈ (onQueues s.queues.pendingJobs).map Job.id ∧ ¬ s.Clean 7 c := by
  have hrun : ∃ s c, callSystem.run System.AnyStep .init
      (.call 7 ⟨.read, 5, 0, 4⟩ :: List.replicate 11 granted ++ [.pass, .iterate] ++
        List.replicate 4 granted) = some s ∧ s.calls 7 = some c ∧
      c.args = ⟨.read, 5, 0, 4⟩ ∧ c.pc = .returned ∧ c.jobIds = [some 1] ∧ c.made = [0] ∧
      s.ids.bitmap.test 1 = true ∧ s.freed = [0] ∧
      (onQueues s.queues.pendingJobs).map Job.id = [0] :=
    ⟨_, _, rfl, rfl, rfl, rfl, rfl, rfl, rfl, rfl, rfl⟩
  obtain ⟨s, c, hs, hc, hargs, hpc, hids, hmade, hbit, hfreed, hqueue⟩ := hrun
  refine ⟨s, c, .run (.init rfl) hs, hc, hargs, hpc, hids, hbit, ?_, ?_, ?_⟩
  · rw [hfreed]
    exact List.mem_singleton_self 0
  · rw [hqueue]
    exact List.mem_singleton_self 0
  · intro hclean
    have hlinked := (hclean.queues 0 (by simp [hmade]) (by simp [hfreed])).2
    rw [hqueue] at hlinked
    exact hlinked (List.mem_singleton_self 0)

end SeamlessStack.Jobs

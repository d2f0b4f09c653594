import SeamlessStack.Lib.Bitmap
import SeamlessStack.Lib.Runs

/-! `get_next_job_id` and `free_job_id`. The counter is trusted without a look at the bitmap until
it reaches the end, and the return for a full bitmap leaves the mutex locked. -/
namespace SeamlessStack.Jobs

open Lib

def maxOutstandingJobs : ℕ := 8192

/-- The globals of the allocator; `held` says that `sfs_job_id_mutex` is locked. -/
structure JobIds where
  bitmap : Bitmap
  currentJobId : ℕ
  held : Bool
  deriving DecidableEq, Repr

def initJobIds : JobIds := ⟨List.replicate ((maxOutstandingJobs + 8 - 1) / 8) 0, 0, false⟩

/-- Where the counter goes on behind the id `i`, which was just taken from the bitmap. -/
def nextJobId (bitmap : Bitmap) (i : ℕ) : ℕ :=
  let j := bitmap.firstUnset i (maxOutstandingJobs - i)
  if j < maxOutstandingJobs then j else maxOutstandingJobs

/-- `none` for the return value -1; a call that waits for the mutex does not return. -/
def getNextJobId (s : JobIds) : Option (Option ℕ × JobIds) :=
  if s.held then none
  else if s.currentJobId ≥ maxOutstandingJobs then
    let i := s.bitmap.firstUnset 0 maxOutstandingJobs
    if i = maxOutstandingJobs then some (none, { s with held := true })
    else some (some i, ⟨s.bitmap.set i, nextJobId (s.bitmap.set i) i, false⟩)
  else some (some s.currentJobId, ⟨s.bitmap.set s.currentJobId, s.currentJobId + 1, false⟩)

/-- `false` is the return value -1. -/
def freeJobId (s : JobIds) (jobId : ℤ) : Bool × JobIds :=
  if jobId < 0 ∨ jobId ≥ maxOutstandingJobs then (false, s)
  else (true, { s with bitmap := s.bitmap.clear jobId.toNat })

/-- The allocator with the ids that were returned and not freed since. -/
structure JobIdUse where
  ids : JobIds
  outstanding : Finset ℕ

inductive JobIdEvent
  | get
  | free (jobId : ℕ)
  deriving DecidableEq, Repr

/-- Only ids that are outstanding are freed. -/
def jobIdStep (s : JobIdUse) : JobIdEvent → Option JobIdUse
  | .get => (getNextJobId s.ids).map fun r => ⟨r.2, s.outstanding ∪ r.1.toFinset⟩
  | .free jobId =>
    if jobId ∈ s.outstanding then
      some ⟨(freeJobId s.ids jobId).2, s.outstanding.erase jobId⟩
    else none

variable {s : JobIdUse} {i : ℕ}

theorem jobIdStep_free (hi : i ∈ s.outstanding) :
    jobIdStep s (.free i) = some ⟨(freeJobId s.ids i).2, s.outstanding.erase i⟩ := if_pos hi

def jobIdSystem : System JobIdUse JobIdEvent where
  init s := s = ⟨initJobIds, ∅⟩
  step := jobIdStep

/-- The counter stands at a free id, or at the end while some id is free. -/
def JobIdUse.Vacant (s : JobIdUse) : Prop :=
  if s.ids.currentJobId < maxOutstandingJobs then s.ids.currentJobId ∉ s.outstanding
  else ∃ i < maxOutstandingJobs, i ∉ s.outstanding

/-- Every call for an id comes when the counter stands right. -/
def GetsVacant (s : JobIdUse) : JobIdEvent → Prop
  | .get => s.Vacant
  | .free _ => True

/-- What a call for an id should do. -/
def JobIdUse.GetOk (s : JobIdUse) : Prop :=
  ∃ r t, getNextJobId s.ids = some (r, t) ∧
    (∀ i, r = some i → i < maxOutstandingJobs ∧ i ∉ s.outstanding) ∧
    (r = none ↔ ∀ i < maxOutstandingJobs, i ∈ s.outstanding) ∧ t.held = false

/-- The bitmap holds the ids that are outstanding. -/
structure JobIdUse.Faithful (s : JobIdUse) : Prop where
  length : s.ids.bitmap.length = maxOutstandingJobs / 8
  range : ∀ i ∈ s.outstanding, i < maxOutstandingJobs
  bits : ∀ i < maxOutstandingJobs, s.ids.bitmap.test i = true ↔ i ∈ s.outstanding
  released : s.ids.held = false

theorem slot_lt {bitmap : Bitmap} (h : bitmap.length = maxOutstandingJobs / 8)
    (hi : i < maxOutstandingJobs) : Bitmap.slot i < bitmap.length := by
  rw [h]
  unfold Bitmap.slot maxOutstandingJobs at *
  omega

theorem JobIdUse.Faithful.take (h : s.Faithful) (hi : i < maxOutstandingJobs) (c : ℕ) :
    JobIdUse.Faithful ⟨⟨s.ids.bitmap.set i, c, false⟩, s.outstanding ∪ {i}⟩ where
  length := by rw [Bitmap.set_length, h.length]
  range := by
    intro j hj
    rw [Finset.mem_union, Finset.mem_singleton] at hj
    obtain hj | rfl := hj
    · exact h.range j hj
    · exact hi
  bits := by
    intro j hj
    rw [Bitmap.test_set (slot_lt h.length hi), Finset.mem_union, Finset.mem_singleton,
      Bool.or_eq_true, h.bits j hj, decide_eq_true_eq, or_comm]
  released := rfl

theorem JobIdUse.Faithful.free (h : s.Faithful) (hi : i ∈ s.outstanding) :
    JobIdUse.Faithful ⟨(freeJobId s.ids i).2, s.outstanding.erase i⟩ := by
  have hlt := h.range i hi
  have hfree : (freeJobId s.ids i).2 = { s.ids with bitmap := s.ids.bitmap.clear i } := by
    unfold freeJobId
    rw [if_neg (by omega), Int.toNat_natCast]
  rw [hfree]
  constructor
  · rw [Bitmap.clear_length, h.length]
  · intro j hj
    exact h.range j (Finset.mem_of_mem_erase hj)
  · intro j hj
    rw [Bitmap.test_clear, Finset.mem_erase, Bool.and_eq_true, h.bits j hj]
    simp
  · exact h.released

/-- What a call for an id does, whether it should or not. -/
theorem JobIdUse.Faithful.getNextJobId_cases (h : s.Faithful) :
    (s.ids.currentJobId < maxOutstandingJobs ∧ getNextJobId s.ids =
      some (some s.ids.currentJobId,
        ⟨s.ids.bitmap.set s.ids.currentJobId, s.ids.currentJobId + 1, false⟩)) ∨
    (maxOutstandingJobs ≤ s.ids.currentJobId ∧ (∀ i < maxOutstandingJobs, i ∈ s.outstanding) ∧
      getNextJobId s.ids = some (none, { s.ids with held := true })) ∨
    (maxOutstandingJobs ≤ s.ids.currentJobId ∧ ∃ i < maxOutstandingJobs, i ∉ s.outstanding ∧
      (∀ j < i, j ∈ s.outstanding) ∧ getNextJobId s.ids =
        some (some i, ⟨s.ids.bitmap.set i, nextJobId (s.ids.bitmap.set i) i, false⟩)) := by
  have hle := Bitmap.firstUnset_le s.ids.bitmap 0 maxOutstandingJobs
  rw [Nat.zero_add] at hle
  have hset : ∀ j < s.ids.bitmap.firstUnset 0 maxOutstandingJobs, j ∈ s.outstanding := by
    intro j hj
    rw [← h.bits j (by omega)]
    exact Bitmap.test_of_lt_firstUnset (Nat.zero_le j) hj
  unfold getNextJobId
  rw [h.released]
  by_cases hlt : s.ids.currentJobId < maxOutstandingJobs
  · left
    rw [if_neg (by decide), if_neg (by omega)]
    exact ⟨hlt, rfl⟩
  · right
    rw [if_neg (by decide), if_pos (by omega)]
    by_cases hfull : s.ids.bitmap.firstUnset 0 maxOutstandingJobs = maxOutstandingJobs
    · left
      rw [hfull] at hset
      rw [if_pos hfull]
      exact ⟨by omega, hset, rfl⟩
    · right
      rw [if_neg hfull]
      refine ⟨by omega, _, by omega, ?_, hset, rfl⟩
      rw [← h.bits _ (by omega), Bitmap.test_firstUnset (by omega)]
      decide

theorem jobIdStep_faithful {t : JobIdUse} {e : JobIdEvent} (h : s.Faithful)
    (hvacant : GetsVacant s e) (ht : jobIdStep s e = some t) : t.Faithful := by
  cases e with
  | get =>
    unfold jobIdStep at ht
    have hvacant : s.Vacant := hvacant
    obtain ⟨hlt, hget⟩ | ⟨hge, hfull, -⟩ | ⟨-, i, hi, -, -, hget⟩ := h.getNextJobId_cases
    · rw [hget] at ht
      rw [← Option.some.inj ht]
      exact h.take hlt _
    · unfold JobIdUse.Vacant at hvacant
      rw [if_neg (by omega)] at hvacant
      obtain ⟨i, hi, hnot⟩ := hvacant
      exact absurd (hfull i hi) hnot
    · rw [hget] at ht
      rw [← Option.some.inj ht]
      exact h.take hi _
  | free jobId =>
    simp only [jobIdStep] at ht
    split at ht
    · rename_i hin
      rw [← Option.some.inj ht]
      exact h.free hin
    · cases ht

theorem init_faithful : JobIdUse.Faithful ⟨initJobIds, ∅⟩ where
  length := by
    unfold initJobIds
    rw [List.length_replicate]
    rfl
  range := by simp
  bits := by
    intro i _
    rw [initJobIds, Bitmap.test_replicate]
    simp
  released := rfl

theorem reach_faithful (hr : jobIdSystem.Reach GetsVacant s) : s.Faithful := by
  apply hr.invariant
  · intro s hs
    rw [show s = _ from hs]
    exact init_faithful
  · intro s e t _ h hvacant ht
    exact jobIdStep_faithful h hvacant ht

theorem JobIdUse.Faithful.getNextJobId_counter (h : s.Faithful)
    (hlt : s.ids.currentJobId < maxOutstandingJobs) :
    getNextJobId s.ids = some (some s.ids.currentJobId,
      ⟨s.ids.bitmap.set s.ids.currentJobId, s.ids.currentJobId + 1, false⟩) := by
  obtain ⟨-, hget⟩ | ⟨hge, -⟩ | ⟨hge, -⟩ := h.getNextJobId_cases
  · exact hget
  · omega
  · omega

theorem JobIdUse.Faithful.jobIdStep_counter (h : s.Faithful)
    (hlt : s.ids.currentJobId < maxOutstandingJobs) :
    jobIdStep s .get = some
      ⟨⟨s.ids.bitmap.set s.ids.currentJobId, s.ids.currentJobId + 1, false⟩,
        s.outstanding ∪ {s.ids.currentJobId}⟩ := by
  rw [jobIdStep, h.getNextJobId_counter hlt]
  rfl

/-- The first ids go out in order. -/
theorem reach_first {G : JobIdUse → JobIdEvent → Prop} (hG : ∀ s e, GetsVacant s e → G s e)
    (n : ℕ) (hn : n ≤ maxOutstandingJobs) :
    ∃ s, jobIdSystem.Reach G s ∧ s.Faithful ∧ s.ids.currentJobId = n ∧
      s.outstanding = Finset.range n := by
  induction n with
  | zero => exact ⟨_, .init rfl, init_faithful, rfl, rfl⟩
  | succ n ih =>
    obtain ⟨s, hr, h, hcurrent, hout⟩ := ih (by omega)
    have hstep := h.jobIdStep_counter (by omega)
    rw [hcurrent] at hstep
    have hvacant : s.Vacant := by
      unfold JobIdUse.Vacant
      rw [hcurrent, hout, if_pos (by omega)]
      exact Finset.notMem_range_self
    refine ⟨_, .step (e := .get) hr (hG _ _ hvacant) hstep, h.take (by omega) _, rfl, ?_⟩
    show s.outstanding ∪ {n} = Finset.range (n + 1)
    rw [hout, Finset.range_add_one, Finset.insert_eq, Finset.union_comm]

/-- After calls that came when the counter stood right, the next one is right exactly when it
does. -/
theorem jobIds_get_iff (hr : jobIdSystem.Reach GetsVacant s) :
    s.GetOk ↔ s.Vacant := by
  have h := reach_faithful hr
  unfold JobIdUse.GetOk JobIdUse.Vacant
  obtain ⟨hlt, hget⟩ | ⟨hge, hfull, hget⟩ | ⟨hge, i, hi, hnot, -, hget⟩ := h.getNextJobId_cases
  · rw [if_pos hlt, hget]
    constructor
    · intro hok
      obtain ⟨r, t, heq, hid, -, -⟩ := hok
      have hr : some s.ids.currentJobId = r := congrArg Prod.fst (Option.some.inj heq)
      exact (hid _ hr.symm).2
    · intro hnot
      refine ⟨_, _, rfl, ?_, ?_, rfl⟩
      · intro i hi
        rw [← Option.some.inj hi]
        exact ⟨hlt, hnot⟩
      · constructor
        · intro hnone
          cases hnone
        · intro hall
          exact absurd (hall _ hlt) hnot
  · rw [if_neg (by omega), hget]
    constructor
    · intro hok
      obtain ⟨r, t, heq, -, -, hheld⟩ := hok
      have ht : { s.ids with held := true } = t := congrArg Prod.snd (Option.some.inj heq)
      rw [← ht] at hheld
      cases hheld
    · intro hfree
      obtain ⟨i, hi, hnot⟩ := hfree
      exact absurd (hfull i hi) hnot
  · rw [if_neg (by omega), hget]
    refine iff_of_true ⟨_, _, rfl, ?_, ?_, rfl⟩ ⟨i, hi, hnot⟩
    · intro j hj
      rw [← Option.some.inj hj]
      exact ⟨hi, hnot⟩
    · constructor
      · intro hnone
        cases hnone
      · intro hall
        exact absurd (hall i hi) hnot

/-- All ids have gone out, and the first one has come back. -/
theorem jobIds_get_iff_wrapped :
    ∃ s, jobIdSystem.Reach GetsVacant s ∧ s.ids.currentJobId = maxOutstandingJobs ∧
      s.outstanding = (Finset.range maxOutstandingJobs).erase 0 ∧ s.GetOk := by
  obtain ⟨s, hr, h, hcurrent, hout⟩ := reach_first (fun _ _ hG => hG) maxOutstandingJobs (le_refl _)
  have h0 : 0 ∈ s.outstanding := by
    rw [hout]
    exact Finset.mem_range.mpr (by decide)
  have hfreed := System.Reach.step (e := JobIdEvent.free 0) hr trivial (jobIdStep_free h0)
  refine ⟨_, hfreed, hcurrent, by rw [hout], (jobIds_get_iff hfreed).mpr ?_⟩
  unfold JobIdUse.Vacant
  rw [if_neg (hcurrent.symm ▸ lt_irrefl _)]
  exact ⟨0, by decide, Finset.notMem_erase 0 _⟩

/-- The search from the start skips no free id. -/
theorem JobIdUse.Faithful.get_wrapped (h : s.Faithful) {j : ℕ}
    (hend : s.ids.currentJobId = maxOutstandingJobs) (hij : i < j) (hj : j < maxOutstandingJobs)
    (hi : i ∉ s.outstanding) (hjfree : j ∉ s.outstanding)
    (hrest : ∀ k < j, k ≠ i → k ∈ s.outstanding) :
    jobIdStep s .get = some ⟨⟨s.ids.bitmap.set i, j, false⟩, s.outstanding ∪ {i}⟩ := by
  have hnext : nextJobId (s.ids.bitmap.set i) i = j := by
    have htake := h.take (i := i) (by omega) 0
    have hfirst : (s.ids.bitmap.set i).firstUnset i (maxOutstandingJobs - i) = j := by
      apply Bitmap.firstUnset_eq (by omega) (by omega)
      · rw [← Bool.not_eq_true, htake.bits j hj, Finset.mem_union, Finset.mem_singleton]
        rintro (hmem | rfl)
        · exact hjfree hmem
        · omega
      · intro k _ hk
        rw [htake.bits k (by omega), Finset.mem_union, Finset.mem_singleton]
        by_cases hki : k = i
        · exact Or.inr hki
        · exact Or.inl (hrest k hk hki)
    unfold nextJobId
    rw [hfirst, if_pos hj]
  obtain ⟨hlt, -⟩ | ⟨-, hfull, -⟩ | ⟨-, k, hk, hknot, hbefore, hget⟩ := h.getNextJobId_cases
  · omega
  · exact absurd (hfull i (by omega)) hi
  · have hki : k = i := by
      by_contra hne
      rcases Nat.lt_or_ge k i with hlt | hge
      · exact hknot (hrest k (by omega) hne)
      · exact hi (hbefore i (by omega))
    rw [jobIdStep, hget, hki, hnext]
    rfl

/-- With all ids out, the next call leaves the mutex locked. When 0 and 1 are freed and taken again,
the call after that gives out 2, never freed. -/
theorem jobIds_get_duplicate :
    (∃ s, jobIdSystem.Reach System.AnyStep s ∧
      getNextJobId s.ids = some (none, { s.ids with held := true })) ∧
    ∃ s t, jobIdSystem.Reach System.AnyStep s ∧ 2 ∈ s.outstanding ∧
      getNextJobId s.ids = some (some 2, t) := by
  obtain ⟨s, hr, h, hcurrent, hout⟩ := reach_first (fun _ _ _ => trivial) maxOutstandingJobs
    (le_refl _)
  have hmax : 2 < maxOutstandingJobs := by decide
  have hmem : ∀ i < maxOutstandingJobs, i ∈ s.outstanding := by
    intro i hi
    rw [hout]
    exact Finset.mem_range.mpr hi
  constructor
  · refine ⟨s, hr, ?_⟩
    obtain ⟨hlt, -⟩ | ⟨-, -, hget⟩ | ⟨-, i, hi, hnot, -⟩ := h.getNextJobId_cases
    · omega
    · exact hget
    · exact absurd (hmem i hi) hnot
  · have h0 : 0 ∈ s.outstanding := hmem 0 (by omega)
    have h1 : 1 ∈ s.outstanding.erase 0 := Finset.mem_erase.mpr ⟨by decide, hmem 1 (by omega)⟩
    have hr1 := System.Reach.step (e := JobIdEvent.free 0) hr trivial (jobIdStep_free h0)
    have hr2 := System.Reach.step (e := JobIdEvent.free 1) hr1 trivial (jobIdStep_free h1)
    have hf2 := (h.free h0).free h1
    have hr3 := System.Reach.step (e := JobIdEvent.get) hr2 trivial
      (hf2.get_wrapped (i := 0) (j := 1) hcurrent (by decide) (by omega) (by simp) (by simp) (by
        intro k hk hne
        omega))
    have hf3 := hf2.take (i := 0) (by omega) 1
    have hr4 := System.Reach.step (e := JobIdEvent.get) hr3 trivial
      (hf3.jobIdStep_counter (show 1 < maxOutstandingJobs by omega))
    have hf4 := hf3.take (i := 1) (by omega) 2
    refine ⟨_, _, hr4, ?_, hf4.getNextJobId_counter hmax⟩
    have := hmem 2 hmax
    simp [this]

end SeamlessStack.Jobs

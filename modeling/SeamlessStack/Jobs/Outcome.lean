import SeamlessStack.Jobs.Wakeup

/-! What the FUSE thread finds when `sfs_wait_for_completion` returns. A write response signals
whatever is left to do and never records a failure, and a read response is counted before its
payload is stored. -/
namespace SeamlessStack.Jobs

open Lib

/-- The outcome of the client is stored and counted, or its thread has returned. -/
def Slot.processed (op : Op) (slot : Slot) : Bool :=
  match op, slot.handler with
  | .read, .stored | _, .recorded _ | _, .decremented _ | _, .last | _, .done => true
  | _, _ => false

def Slot.failure (slot : Slot) : Prop := slot.handler ≠ .idle ∧ slot.code ≠ sstackSuccess

instance (slot : Slot) : Decidable slot.failure := inferInstanceAs (Decidable (_ ∧ _))

def Progress.failures (s : Progress) (j : ℕ) : ℕ :=
  s.slots.countP fun slot => slot.job = j ∧ slot.failure

/-- Every response was processed, and no job failed at more than half of its clients. -/
def Progress.Answered (q : Request) (s : Progress) : Prop :=
  (∀ slot ∈ s.slots, slot.processed q.op = true) ∧
    ∀ j < q.numJobs, 2 * s.failures j ≤ q.numClients

instance (q : Request) (s : Progress) : Decidable (s.Answered q) :=
  inferInstanceAs (Decidable (_ ∧ _))

/-- A write response finds the job map, and its closing signal reaches the sleeping thread only when
the request is answered; a read response does not signal it before the payload of a counted response
is stored. -/
def OrderlyTurn (q : Request) (s : Progress) (slot : Slot) : Prop :=
  (q.op = .write → slot.handler = .lookup → s.mapped = true) ∧
  (s.fuse = .asleep → (slot.handler = .last → s.Answered q) ∧
    (q.op = .read → slot.handler = .recorded true → ∀ slot' ∈ s.slots, slot'.handler ≠ .counted))

instance (q : Request) (s : Progress) (slot : Slot) : Decidable (OrderlyTurn q s slot) :=
  inferInstanceAs (Decidable (_ ∧ _))

def Orderly (q : Request) (s : Progress) : CompletionEvent → Prop
  | .spurious => False
  | .handle i _ => ∀ slot ∈ s.slots[i]?, OrderlyTurn q s slot
  | _ => True

instance (q : Request) (s : Progress) : ∀ e, Decidable (Orderly q s e)
  | .spurious => inferInstanceAs (Decidable False)
  | .handle i _ => inferInstanceAs (Decidable (∀ slot ∈ s.slots[i]?, OrderlyTurn q s slot))
  | .submit | .insert | .sleep | .wakeup | .send _ | .mark _ | .receive .. =>
    inferInstanceAs (Decidable True)

/-- What a turn of the client in `slot` may do to the data of a job. -/
inductive JobEdit (slot new : Slot) : ℕ → JobData → JobData → Prop
  | same (j : ℕ) (data : JobData) : JobEdit slot new j data data
  | mark (data : JobData) : JobEdit slot new slot.job data
      { data with jobStatus := data.jobStatus.set slot.client .started }
  | keep (data : JobData) : JobEdit slot new slot.job data
      { data with payload := .response ⟨slot.job, slot.client, slot.code⟩ }
  | store (data : JobData) (hnew : new.handler = .stored) (hsame : new.code = slot.code)
      (hcode : slot.handler = .counted ∨ slot.code = sstackSuccess) :
      JobEdit slot new slot.job data
        ⟨.response ⟨slot.job, slot.client, slot.code⟩, data.jobStatus.set 0 .complete⟩

variable {s : Progress} {slot new : Slot} {j : ℕ} {data' : JobData}

theorem modify_edit {f : JobData → JobData} (hf : ∀ data, JobEdit slot new slot.job data (f data))
    (h : (s.jobs.modify slot.job f)[j]? = some data') :
    ∃ data, s.jobs[j]? = some data ∧ JobEdit slot new j data data' := by
  rw [List.getElem?_modify] at h
  obtain ⟨data, hdata, hedit⟩ := Option.map_eq_some_iff.mp h
  refine ⟨data, hdata, ?_⟩
  split_ifs at hedit with hj
  · subst hj
    subst hedit
    exact hf data
  · subst hedit
    exact .same j _

theorem store_edit (hnew : new.handler = .stored) (hsame : new.code = slot.code)
    (hcode : slot.handler = .counted ∨ slot.code = sstackSuccess)
    (h : ((s.keepPayload slot).setStatus slot.job 0 .complete).jobs[j]? = some data') :
    ∃ data, s.jobs[j]? = some data ∧ JobEdit slot new j data data' := by
  simp only [Progress.setStatus, Progress.keepPayload, List.modify_modify_eq] at h
  exact modify_edit (fun data => .store data hnew hsame hcode) h

variable {q : Request} {t : Progress} {i : ℕ} {e : CompletionEvent}

theorem Turn.jobEdit (h : Turn q s i slot e t new) (hj : t.jobs[j]? = some data') :
    ∃ data, s.jobs[j]? = some data ∧ JobEdit slot new j data data' := by
  have hsame : t.jobs = s.jobs →
      ∃ data, s.jobs[j]? = some data ∧ JobEdit slot new j data data' := by
    intro heq
    rw [heq] at hj
    exact ⟨data', hj, .same j data'⟩
  cases h with
  | mark => exact modify_edit .mark hj
  | resubmit retry _ _ _ keep =>
    cases keep
    · exact hsame rfl
    · exact modify_edit .keep hj
  | storeWrite retry _ _ hcode => exact store_edit rfl rfl (Or.inr hcode) hj
  | storeRead retry hh => exact store_edit rfl rfl (Or.inl hh) hj
  | signalFailed retry _ | signalLast retry _ => exact hsame s.signal_jobs
  | @signalRead retry zero _ _ =>
    cases zero
    · exact hsame rfl
    · exact hsame s.signal_jobs
  | @signalWrite retry zero _ _ =>
    cases zero
    · exact hsame rfl
    · exact hsame s.signal_jobs
  | _ => exact hsame rfl

def Progress.HasResponse (s : Progress) (j : ℕ) : Prop :=
  ∃ data r, s.jobs[j]? = some data ∧ data.payload = .response r

def Handler.past : Handler → Bool
  | .idle | .lookup | .found => false
  | _ => true

structure SlotOk (q : Request) (s : Progress) (slot : Slot) : Prop where
  code : slot.counted = true → slot.code = sstackSuccess ∧ q.numClients = 1
  payload : slot.counted = true → slot.handler ≠ .counted → s.HasResponse slot.job
  tallied : ∀ fail, slot.handler = .tallied 0 fail →
    slot.code = sstackSuccess ∧ q.numClients = 1 ∧ s.HasResponse slot.job
  fails : ∀ incomplete fail, slot.handler = .tallied incomplete fail ∨
    slot.handler = .decremented fail → fail = 0
  failed : slot.handler = .failed → ∃ v, s.errNo = some v ∧ v ≠ sstackSuccess
  zero : slot.handler = .recorded true → s.numJobsLeft = 0
  read : q.op = .read → slot.handler.writeOnly = false

structure JobOk (q : Request) (s : Progress) (j : ℕ) (data : JobData) : Prop where
  length : data.jobStatus.length = q.numClients
  first : data.jobStatus[0]? = some .started ∨ data.jobStatus[0]? = some .complete
  rest : ∀ c, 0 < c → c < q.numClients → data.jobStatus[c]? = some .started
  id : ∀ r, data.payload = .response r → r.job = j
  complete : data.jobStatus[0]? = some .complete → (∃ r, data.payload = .response r) ∧
    (q.numClients = 1 → ∀ slot ∈ s.slots, slot.job = j →
      slot.code = sstackSuccess ∧ slot.handler.past = true)

structure OutcomeOk (q : Request) (s : Progress) : Prop where
  slots : ∀ slot ∈ s.slots, SlotOk q s slot
  jobs : ∀ j data, s.jobs[j]? = some data → JobOk q s j data
  errWrite : q.op = .write → s.errNo = none ∨ s.errNo = some sstackSuccess

theorem OutcomeOk.all_counted (h : OutcomeOk q s) (hl : Layout q s)
    (hleft : q.numJobsLeft₀ = 0) (hzero : s.numJobsLeft = 0) :
    ∀ slot ∈ s.slots, slot.counted = true := by
  have hcount := hl.left
  rw [hleft, hzero] at hcount
  by_cases hone : q.numClients = 1
  · rw [← hl.length_eq hone] at hcount
    exact List.countP_eq_length.mp (by omega)
  · have hnone : s.slots.countP Slot.counted = 0 := by
      rw [List.countP_eq_zero]
      intro slot hslot hc
      exact hone ((h.slots slot hslot).code hc).2
    rw [hnone] at hcount
    have hempty : s.jobs.length = 0 := by omega
    have hkeys := hl.keys
    rw [hempty] at hkeys
    have hslots : s.slots = [] := by simpa using hkeys
    simp [hslots]

theorem OutcomeOk.not_failure (h : OutcomeOk q s)
    (hop : q.op = .write) {v : ℤ} (hv : s.errNo = some v) : v = sstackSuccess := by
  obtain hnone | hsucc := h.errWrite hop
  · rw [hnone] at hv
    cases hv
  · rw [hsucc] at hv
    exact (Option.some.inj hv).symm

theorem OutcomeOk.eio_iff (h : OutcomeOk q s) (hop : q.op = .write) :
    (s.errNo = some eio ↔ ∃ j < q.numJobs, q.numClients < 2 * s.failures j) ↔
      ∀ j < q.numJobs, 2 * s.failures j ≤ q.numClients := by
  have hnot : s.errNo ≠ some eio := fun heio => absurd (h.not_failure hop heio) (by decide)
  simp [hnot]

theorem Layout.job_lt (h : Layout q s) (hslot : slot ∈ s.slots) :
    slot.job < s.jobs.length ∧ slot.client < q.numClients := by
  have hmem : (slot.job, slot.client) ∈ s.slots.map fun slot => (slot.job, slot.client) :=
    List.mem_map_of_mem hslot
  rw [h.keys] at hmem
  simpa using hmem

/-- With one client for each job, the job of a slot is its index. -/
theorem Layout.job_eq (h : Layout q s) (hone : q.numClients = 1)
    (hslot : s.slots[i]? = some slot) : slot.job = i := by
  have hkeys := h.keys
  rw [hone] at hkeys
  have hget : (s.slots.map fun slot => (slot.job, slot.client))[i]? =
      some (slot.job, slot.client) := by
    rw [List.getElem?_map, hslot]
    rfl
  rw [hkeys] at hget
  have hpairs : ((List.range s.jobs.length).flatMap fun job =>
      (List.range 1).map fun client => (job, client)) =
      (List.range s.jobs.length).map fun job => (job, 0) := by
    rw [List.map_eq_flatMap]
    rfl
  rw [hpairs, List.getElem?_map] at hget
  obtain ⟨j, hj, heq⟩ := Option.map_eq_some_iff.mp hget
  have hji : j = i := by
    rw [List.getElem?_range] at hj
    · exact (Option.some.inj hj).symm
    · have := (List.getElem?_eq_some_iff.mp hj).1
      simpa using this
  rw [← hji]
  exact (congrArg Prod.fst heq).symm

/-- The count of the clients of a job that are not complete. -/
theorem incomplete_eq_zero (h : OutcomeOk q s) (hl : Layout q s)
    (hslot : slot ∈ s.slots) (hzero : s.incomplete slot = 0) :
    slot.code = sstackSuccess ∧ q.numClients = 1 ∧ s.HasResponse slot.job := by
  have hlt := (hl.job_lt hslot).1
  have hget : s.jobs[slot.job]? = some s.jobs[slot.job] := List.getElem?_eq_getElem hlt
  have hjob := h.jobs slot.job _ hget
  unfold Progress.incomplete at hzero
  rw [hget] at hzero
  have hnone := List.countP_eq_zero.mp hzero
  have hnot : ∀ c : ℕ, s.jobs[slot.job].jobStatus[c]? ≠ some .started := by
    intro c hc
    exact hnone _ (List.mem_of_getElem? hc) (by simp)
  have hone : q.numClients = 1 := by
    by_contra hne
    have hpos := q.pos
    exact hnot 1 (hjob.rest 1 (by decide) (by omega))
  obtain ⟨⟨r, hr⟩, hcode⟩ := hjob.complete (hjob.first.resolve_left (hnot 0))
  exact ⟨(hcode hone slot hslot rfl).1, hone, _, r, hget, hr⟩

theorem Turn.hasResponse (h : Turn q s i slot e t new) (hst : SlotStep s t i slot new)
    (hj : s.HasResponse j) : t.HasResponse j := by
  obtain ⟨data, r, hdata, hr⟩ := hj
  have hlt : j < t.jobs.length := by
    rw [hst.length]
    exact (List.getElem?_eq_some_iff.mp hdata).1
  have hget : t.jobs[j]? = some t.jobs[j] := List.getElem?_eq_getElem hlt
  obtain ⟨data', hdata', hedit⟩ := h.jobEdit hget
  have hsame : data = data' := Option.some.inj (hdata.symm.trans hdata')
  subst hsame
  refine ⟨t.jobs[j], ?_⟩
  generalize t.jobs[j] = after at hedit hget
  cases hedit with
  | same | mark => exact ⟨r, hget, hr⟩
  | keep | store _ _ _ => exact ⟨_, hget, rfl⟩

theorem hasResponse_store (hlt : slot.job < s.jobs.length) :
    ((s.keepPayload slot).setStatus slot.job 0 .complete).HasResponse slot.job := by
  refine ⟨⟨.response ⟨slot.job, slot.client, slot.code⟩,
    s.jobs[slot.job].jobStatus.set 0 .complete⟩, _, ?_, rfl⟩
  simp [Progress.setStatus, Progress.keepPayload, hlt]

theorem Turn.hasResponse_of_stored (h : Turn q s i slot e t new) (hlt : slot.job < s.jobs.length)
    (hh : slot.handler = .counted) (hnew : new.handler ≠ .counted) :
    t.HasResponse slot.job := by
  cases h with
  | send | mark => exact absurd hh hnew
  | storeRead retry _ => exact hasResponse_store hlt
  | receive h _ | found retry h _ | lost retry h _ | count retry h _ _ | giveUp retry h _ _
  | resubmit retry h _ _ _ | fail retry h _ _ | storeWrite retry h _ _ | ignoreWrite retry h _ _
  | signalFailed retry h | test retry h _ | tally retry h _ | decrement retry h | leave retry h _
  | record retry h _ | pass retry h _ | signalRead retry h _ | signalWrite retry h _
  | signalLast retry h =>
    rw [h] at hh
    cases hh

variable {op : Op}

theorem Slot.past_of_counted (h : slot.Consistent op)
    (hc : slot.counted = true) : slot.handler.past = true := by
  unfold Slot.Consistent at h
  cases hh : slot.handler <;> simp_all [Handler.past]

theorem Turn.past (h : Turn q s i slot e t new) (hpast : slot.handler.past = true) :
    new.handler.past = true ∧ new.code = slot.code ∧
      (slot.counted = true → new.counted = true) := by
  cases h with
  | receive h _ | found retry h _ | lost retry h _ | count retry h _ _ | giveUp retry h _ _
  | resubmit retry h _ _ _ | fail retry h _ _ | storeWrite retry h _ _ | ignoreWrite retry h _ _ =>
    rw [h] at hpast
    cases hpast
  | send | mark => exact ⟨hpast, rfl, id⟩
  | decrement retry _ => exact ⟨rfl, rfl, fun _ => rfl⟩
  | storeRead | signalFailed | test | tally | leave | record | pass | signalRead | signalWrite
  | signalLast => exact ⟨rfl, rfl, id⟩

/-- `err_no` keeps what it holds, or gets the code of a failed read or of the last write. -/
theorem Turn.errNo (h : Turn q s i slot e t new) :
    t.errNo = s.errNo ∨
    (q.op = .read ∧ slot.code ≠ sstackSuccess ∧ t.errNo = some slot.code) ∨
    (∃ fail, slot.handler = .decremented fail ∧ s.numJobsLeft = 0 ∧
      t.errNo = some (if fail > q.numClients / 2 then eio else slot.code)) := by
  cases h with
  | fail retry _ hop hcode => exact Or.inr (Or.inl ⟨hop, hcode, rfl⟩)
  | record retry hh hzero => exact Or.inr (Or.inr ⟨_, hh, hzero, rfl⟩)
  | resubmit retry _ _ _ keep =>
    left
    cases keep <;> rfl
  | signalFailed retry _ | signalLast retry _ => exact Or.inl s.signal_errNo
  | @signalRead retry zero _ _ =>
    left
    cases zero
    · rfl
    · exact s.signal_errNo
  | @signalWrite retry zero _ _ =>
    left
    cases zero
    · rfl
    · exact s.signal_errNo
  | _ => exact Or.inl rfl

theorem SlotStep.left_eq_zero {old : Slot}
    (hst : SlotStep s t i old new) (h : OutcomeOk q s) (hl : Layout q s)
    (hleft : q.numJobsLeft₀ = 0) (hcount : old.counted = true → new.counted = true)
    (hzero : s.numJobsLeft = 0) : t.numJobsLeft = 0 := by
  have hold := h.all_counted hl hleft hzero old hst.mem
  have hnew := hcount hold
  have hdiff := hst.left
  rw [hold, hnew, hzero] at hdiff
  simpa using hdiff

theorem SlotOk.mono (h : SlotOk q s slot)
    (hresp : ∀ j, s.HasResponse j → t.HasResponse j)
    (herr : (∃ v, s.errNo = some v ∧ v ≠ sstackSuccess) →
      ∃ v, t.errNo = some v ∧ v ≠ sstackSuccess)
    (hzero : s.numJobsLeft = 0 → t.numJobsLeft = 0) : SlotOk q t slot where
  code := h.code
  payload hc hh := hresp _ (h.payload hc hh)
  tallied fail hh :=
    have ⟨hcode, hone, hr⟩ := h.tallied fail hh
    ⟨hcode, hone, hresp _ hr⟩
  fails := h.fails
  failed hh := herr (h.failed hh)
  zero hh := hzero (h.zero hh)
  read := h.read

theorem SlotOk.op_eq_write (h : SlotOk q s slot)
    (hh : slot.handler.writeOnly = true) : q.op = .write := by
  cases hop : q.op with
  | write => rfl
  | read =>
    rw [h.read hop] at hh
    cases hh

theorem SlotOk.decremented {m fail : ℕ} (h : SlotOk q t slot)
    (hh : slot.handler = .tallied m fail) (hnew : new.handler = .decremented fail)
    (hcode : new.counted = true → new.code = sstackSuccess ∧ q.numClients = 1)
    (hpayload : new.counted = true → t.HasResponse new.job) : SlotOk q t new := by
  refine ⟨hcode, fun hc _ => hpayload hc, ?_, ?_, ?_, ?_, ?_⟩ <;> rw [hnew]
  · simp
  · intro _ f heq
    obtain heq | heq := heq
    · cases heq
    · rw [← Handler.decremented.inj heq]
      exact h.fails m fail (Or.inl hh)
  · simp
  · simp
  · rw [h.op_eq_write (by rw [hh]; rfl)]
    simp

def Handler.plain : Handler → Bool
  | .idle | .lookup | .found | .stored | .recorded false | .done => true
  | _ => false

theorem SlotOk.plain (h : SlotOk q t slot)
    (hjob : new.job = slot.job) (hplain : new.handler.plain = true)
    (hcounted : new.counted = true → slot.counted = true ∧ new.code = slot.code ∧
      slot.handler ≠ .counted) : SlotOk q t new := by
  have hnot : ∀ handler, handler.plain = false → new.handler ≠ handler := by
    rintro handler hfalse rfl
    rw [hplain] at hfalse
    cases hfalse
  constructor
  · intro hc
    rw [(hcounted hc).2.1]
    exact h.code (hcounted hc).1
  · intro hc _
    rw [hjob]
    exact h.payload (hcounted hc).1 (hcounted hc).2.2
  · intro fail hh
    exact absurd hh (hnot _ rfl)
  · intro incomplete fail hh
    obtain hh | hh := hh
    · exact absurd hh (hnot _ rfl)
    · exact absurd hh (hnot _ rfl)
  · intro hh
    exact absurd hh (hnot _ rfl)
  · intro hh
    exact absurd hh (hnot _ rfl)
  · intro _
    cases hh : new.handler <;> first | rfl | exact absurd hh (hnot _ rfl)

/-- The slot after a turn, where the rest of the state was `SlotOk` for the slot before. -/
theorem Turn.slotOk (h : Turn q s i slot e t new) (hok : OutcomeOk q s) (hl : Layout q s)
    (hslot : s.slots[i]? = some slot) (hmono : SlotOk q t slot)
    (hresp : ∀ j, s.HasResponse j → t.HasResponse j) : SlotOk q t new := by
  have hmem := List.mem_of_getElem? hslot
  have hcons := hl.consistent slot hmem
  have hnone : slot.handler = .idle ∨ slot.handler = .lookup ∨ slot.handler = .found ∨
      slot.handler = .failed → slot.counted = false := by
    intro hh
    unfold Slot.Consistent at hcons
    obtain hh | hh | hh | hh := hh <;> rw [hh] at hcons <;> exact hcons
  cases h with
  | send | mark => exact ⟨hmono.1, hmono.2, hmono.3, hmono.4, hmono.5, hmono.6, hmono.7⟩
  | receive hh code => exact hmono.plain rfl rfl (by simp [hnone (Or.inl hh)])
  | found retry hh _ | lost retry hh _ =>
    exact hmono.plain rfl rfl (by simp [hnone (Or.inr (Or.inl hh))])
  | giveUp retry hh _ _ | resubmit retry hh _ _ keep | storeWrite retry hh _ _
  | ignoreWrite retry hh _ _ =>
    exact hmono.plain rfl rfl (by simp [hnone (Or.inr (Or.inr (Or.inl hh)))])
  | signalFailed retry hh =>
    exact hmono.plain rfl rfl (by simp [hnone (Or.inr (Or.inr (Or.inr hh)))])
  | count retry hh hop hcode =>
    exact ⟨fun _ => ⟨hcode, q.read_one hop⟩, by simp, by simp, by simp, by simp, by simp,
      fun _ => rfl⟩
  | fail retry hh hop hcode =>
    have hfalse := hnone (Or.inr (Or.inr (Or.inl hh)))
    exact ⟨by simp [hfalse], by simp [hfalse], by simp, by simp,
      fun _ => ⟨slot.code, rfl, hcode⟩, by simp, fun _ => rfl⟩
  | storeRead retry hh =>
    have hstored := (Turn.storeRead retry hh : Turn q s i slot _ _ _).hasResponse_of_stored
      (hl.job_lt hmem).1 hh (by simp)
    exact ⟨hmono.code, fun _ _ => hstored, by simp, by simp, by simp, by simp, fun _ => rfl⟩
  | test retry hh hop =>
    exact ⟨hmono.code, fun hc _ => hmono.payload hc (by rw [hh]; decide), by simp, by simp,
      by simp, fun hz => (by simpa using hz : s.numJobsLeft = 0), fun _ => rfl⟩
  | tally retry hh hop =>
    have hfalse : slot.counted = false := by
      unfold Slot.Consistent at hcons
      rw [hh, hop] at hcons
      simpa using hcons
    have hfail : s.numClientsFail = 0 := by
      unfold Progress.numClientsFail
      rw [hl.opStatus]
      simp
    refine ⟨by simp [hfalse], by simp [hfalse], ?_, ?_, by simp, by simp, by simp [hop]⟩
    · intro fail heq
      have hzero : s.incomplete slot = 0 := (Handler.tallied.inj heq).1
      obtain ⟨hcode, hone, hr⟩ := incomplete_eq_zero hok hl hmem hzero
      exact ⟨hcode, hone, hresp _ hr⟩
    · intro m fail heq
      obtain heq | heq := heq
      · rw [← (Handler.tallied.inj heq).2, hfail]
      · cases heq
  | @decrement retry fail hh =>
    obtain ⟨hcode, hone, hr⟩ := hmono.tallied fail hh
    exact hmono.decremented hh rfl (fun _ => ⟨hcode, hone⟩) fun _ => hr
  | @leave retry m fail hh _ =>
    exact hmono.decremented hh rfl hmono.code fun hc => hmono.payload hc (by rw [hh]; simp)
  | record retry hh hzero =>
    exact ⟨hmono.code, fun hc _ => hmono.payload hc (by rw [hh]; simp), by simp, by simp,
      by simp, fun _ => hzero, fun _ => rfl⟩
  | pass retry hh _ | signalRead retry hh _ =>
    exact hmono.plain rfl rfl fun hc => ⟨hc, rfl, by rw [hh]; simp⟩
  | signalWrite retry hh hop =>
    exact ⟨hmono.code, fun hc _ => hmono.payload hc (by rw [hh]; simp), by simp, by simp,
      by simp, by simp, by simp [hop]⟩
  | signalLast retry hh => exact hmono.plain rfl rfl fun hc => ⟨hc, rfl, by rw [hh]; simp⟩

theorem Turn.keepsComplete (h : Turn q s i slot e t new) (hst : SlotStep s t i slot new)
    (hold : ∀ old ∈ s.slots, old.job = j → old.code = sstackSuccess ∧ old.handler.past = true) :
    ∀ slot' ∈ t.slots, slot'.job = j → slot'.code = sstackSuccess ∧ slot'.handler.past = true := by
  intro slot' hin hjob'
  rw [hst.slots] at hin
  obtain hin | rfl := List.mem_or_eq_of_mem_set hin
  · exact hold slot' hin hjob'
  · have hsame : slot.job = j := (congrArg Prod.fst hst.key).symm.trans hjob'
    obtain ⟨hcode, hpast⟩ := hold slot hst.mem hsame
    obtain ⟨hpast', hcode', -⟩ := h.past hpast
    exact ⟨hcode'.trans hcode, hpast'⟩

theorem SlotStep.eq_new_of_job {slot' : Slot}
    (hst : SlotStep s t i slot new) (hl : Layout q s) (hl' : Layout q t) (hone : q.numClients = 1)
    (hin : slot' ∈ t.slots) (hjob : slot'.job = slot.job) : slot' = new := by
  obtain ⟨k, hk⟩ := List.mem_iff_getElem?.mp hin
  have hki : k = i := by
    rw [← hl'.job_eq hone hk, hjob, hl.job_eq hone hst.slot]
  have hlt := (List.getElem?_eq_some_iff.mp hst.slot).1
  rw [hki, hst.slots, List.getElem?_set_self hlt] at hk
  exact (Option.some.inj hk).symm

theorem Turn.jobOk (h : Turn q s i slot e t new) (hok : OutcomeOk q s) (hl : Layout q s)
    (hl' : Layout q t) (hst : SlotStep s t i slot new) (hj : t.jobs[j]? = some data') :
    JobOk q t j data' := by
  obtain ⟨data, hdata, hedit⟩ := h.jobEdit hj
  have hjob := hok.jobs j data hdata
  have hslotOk := hok.slots slot hst.mem
  have hkeep : data.jobStatus[0]? = some .complete → q.numClients = 1 →
      ∀ slot' ∈ t.slots, slot'.job = j → slot'.code = sstackSuccess ∧ slot'.handler.past = true :=
    fun hcomplete hone => h.keepsComplete hst ((hjob.complete hcomplete).2 hone)
  cases hedit with
  | same =>
    refine ⟨hjob.length, hjob.first, hjob.rest, hjob.id, ?_⟩
    intro hcomplete
    exact ⟨(hjob.complete hcomplete).1, hkeep hcomplete⟩
  | mark _ =>
    refine ⟨by simp [hjob.length], ?_, ?_, hjob.id, ?_⟩
    · rw [List.getElem?_set]
      split_ifs with h0 hlt
      · exact Or.inl rfl
      · rw [hjob.length] at hlt
        exact absurd q.pos (by omega)
      · exact hjob.first
    · intro c hc hlt
      rw [List.getElem?_set]
      split_ifs with hc' hlt'
      · rfl
      · rw [hjob.length] at hlt'
        omega
      · exact hjob.rest c hc hlt
    · intro hcomplete
      rw [List.getElem?_set] at hcomplete
      split_ifs at hcomplete
      · cases hcomplete
      · exact ⟨(hjob.complete hcomplete).1, hkeep hcomplete⟩
  | keep =>
    refine ⟨hjob.length, hjob.first, hjob.rest, ?_, ?_⟩
    · intro r hr
      rw [← Payload.response.inj hr]
    · intro hcomplete
      exact ⟨⟨_, rfl⟩, hkeep hcomplete⟩
  | store _ hnew hsame hcode =>
    refine ⟨by simp [hjob.length], ?_, ?_, ?_, ?_⟩
    · right
      rw [List.getElem?_set_self]
      rw [hjob.length]
      exact q.pos
    · intro c hc hlt
      rw [List.getElem?_set_ne (by omega)]
      exact hjob.rest c hc hlt
    · intro r hr
      rw [← Payload.response.inj hr]
    · intro _
      refine ⟨⟨_, rfl⟩, ?_⟩
      intro hone slot' hin hjob'
      rw [hst.eq_new_of_job hl hl' hone hin hjob', hnew, hsame]
      refine ⟨?_, rfl⟩
      obtain hh | hcode := hcode
      · have hcons := hl.consistent slot hst.mem
        unfold Slot.Consistent at hcons
        rw [hh] at hcons
        exact (hslotOk.code hcons.1).1
      · exact hcode

theorem OutcomeOk.recorded (hs : OutcomeOk q s)
    (hleft : q.numJobsLeft₀ = 0) (hl : Layout q s) (hmem : slot ∈ s.slots) {fail : ℕ}
    (hh : slot.handler = .decremented fail) (hzero : s.numJobsLeft = 0) :
    q.op = .write ∧ (if fail > q.numClients / 2 then eio else slot.code) = sstackSuccess := by
  have hslotOk := hs.slots slot hmem
  have hf : fail = 0 := hslotOk.fails 0 fail (Or.inr hh)
  refine ⟨hslotOk.op_eq_write (by rw [hh]; rfl), ?_⟩
  rw [hf, if_neg (Nat.not_lt_zero _)]
  exact (hslotOk.code (hs.all_counted hl hleft hzero slot hmem)).1

theorem OutcomeOk.keepsFailure (hs : OutcomeOk q s) (hleft : q.numJobsLeft₀ = 0) (hl : Layout q s)
    (h : Turn q s i slot e t new) (hmem : slot ∈ s.slots)
    (hfail : ∃ v, s.errNo = some v ∧ v ≠ sstackSuccess) :
    ∃ v, t.errNo = some v ∧ v ≠ sstackSuccess := by
  obtain ⟨v, hv, hne⟩ := hfail
  obtain hsame | ⟨-, hcode, hset⟩ | ⟨fail, hh, hzero, -⟩ := h.errNo
  · exact ⟨v, hsame.trans hv, hne⟩
  · exact ⟨slot.code, hset, hcode⟩
  · exact absurd (hs.not_failure (hs.recorded hleft hl hmem hh hzero).1 hv) hne

theorem OutcomeOk.turn (hs : OutcomeOk q s) (hleft : q.numJobsLeft₀ = 0) (hl : Layout q s)
    (hl' : Layout q t) (h : Turn q s i slot e t new) (hslot : s.slots[i]? = some slot) :
    OutcomeOk q t := by
  have hmem := List.mem_of_getElem? hslot
  have hcons := hl.consistent slot hmem
  have hst := h.slotStep hslot hcons
  have hresp : ∀ j, s.HasResponse j → t.HasResponse j := fun j => h.hasResponse hst
  have herr := hs.keepsFailure hleft hl h hmem
  have hcount : slot.counted = true → new.counted = true := by
    intro hc
    exact (h.past (Slot.past_of_counted hcons hc)).2.2 hc
  have hmono : ∀ slot' ∈ s.slots, SlotOk q t slot' := by
    intro slot' hin
    exact (hs.slots slot' hin).mono hresp herr (hst.left_eq_zero hs hl hleft hcount)
  constructor
  · rw [hst.slots]
    exact forall_mem_set hmono (h.slotOk hs hl hslot (hmono slot hmem) hresp)
  · intro j data hj
    exact h.jobOk hs hl hl' hst hj
  · intro hop
    obtain hsame | ⟨hread, -, -⟩ | ⟨fail, hh, hzero, hset⟩ := h.errNo
    · rw [hsame]
      exact hs.errWrite hop
    · rw [hop] at hread
      cases hread
    · rw [hset, (hs.recorded hleft hl hmem hh hzero).2]
      exact Or.inr rfl

theorem Progress.HasResponse.submit (h : s.HasResponse j) :
    (s.submit q).HasResponse j := by
  obtain ⟨data, r, hdata, hr⟩ := h
  have hlt := (List.getElem?_eq_some_iff.mp hdata).1
  exact ⟨data, r, (List.getElem?_append_left hlt).trans hdata, hr⟩

theorem OutcomeOk.submit (h : OutcomeOk q s) (hl : Layout q s)
    (hf : s.fuse = .submitting) : OutcomeOk q (s.submit q) := by
  have hslot : ∀ slot ∈ s.slots, SlotOk q (s.submit q) slot := by
    intro slot hin
    have hok := h.slots slot hin
    refine ⟨hok.code, fun hc hh => (hok.payload hc hh).submit, ?_, hok.fails, hok.failed, ?_,
      hok.read⟩
    · intro fail hh
      obtain ⟨hcode, hone, hr⟩ := hok.tallied fail hh
      exact ⟨hcode, hone, hr.submit⟩
    · intro hh
      have := (hl.early hf slot hin).1
      rw [hh] at this
      simp at this
  constructor
  · intro slot hin
    obtain hin | hnew := List.mem_append.mp hin
    · exact hslot slot hin
    · obtain ⟨client, -, rfl⟩ := List.mem_map.mp hnew
      constructor <;> simp [Handler.writeOnly]
  · intro j data hj
    have hj : (s.jobs ++ [⟨.request, List.replicate q.numClients .started⟩])[j]? = some data := hj
    rw [List.getElem?_append] at hj
    split_ifs at hj with hlt
    · have hjob := h.jobs j data hj
      refine ⟨hjob.length, hjob.first, hjob.rest, hjob.id, ?_⟩
      intro hcomplete
      refine ⟨(hjob.complete hcomplete).1, ?_⟩
      intro hone slot hin hsame
      obtain hin | hnew := List.mem_append.mp hin
      · exact (hjob.complete hcomplete).2 hone slot hin hsame
      · obtain ⟨client, -, rfl⟩ := List.mem_map.mp hnew
        exact absurd hsame (Nat.ne_of_gt hlt)
    · have hdata : data = ⟨.request, List.replicate q.numClients .started⟩ := by
        rw [List.getElem?_singleton] at hj
        split_ifs at hj
        exact (Option.some.inj hj).symm
      subst hdata
      constructor
      · simp
      · left
        simp [q.pos]
      · intro c _ hc
        simp [hc]
      · intro r hr
        cases hr
      · intro hcomplete
        simp [q.pos] at hcomplete
  · exact h.errWrite

theorem OutcomeOk.setFuse (h : OutcomeOk q s) (pc : FusePc) :
    OutcomeOk q { s with fuse := pc } where
  slots slot hin := (h.slots slot hin).mono (fun _ hr => hr) id id
  jobs j data hj :=
    have hjob := h.jobs j data hj
    ⟨hjob.length, hjob.first, hjob.rest, hjob.id, hjob.complete⟩
  errWrite := h.errWrite

theorem step_outcomeOk (hleft : q.numJobsLeft₀ = 0) (hl : Layout q s) (hs : OutcomeOk q s)
    (h : completionStep q s e = some t) : OutcomeOk q t := by
  have hl' := step_layout hl h
  obtain ⟨hf, -, rfl⟩ | ⟨-, -, rfl⟩ | ⟨-, rfl⟩ | ⟨-, rfl⟩ | ⟨-, -, rfl⟩ |
    ⟨i, slot, new, -, hslot, hturn⟩ := completionStep_cases h
  · exact hs.submit hl hf
  · exact hs.setFuse _
  · exact hs.setFuse _
  · exact hs.setFuse _
  · exact hs.setFuse _
  · exact hs.turn hleft hl hl' hturn hslot

theorem reach_outcomeOk {G : Progress → CompletionEvent → Prop} (hleft : q.numJobsLeft₀ = 0)
    (hr : (completionSystem q).Reach G s) : OutcomeOk q s := by
  apply hr.invariant
  · intro s hs
    rw [show s = startRequest q from hs]
    constructor <;> simp [startRequest]
  · intro s e t hreach hs _ ht
    exact step_outcomeOk hleft (reach_layout hreach) hs ht

theorem Turn.wakes (h : Turn q s i slot e t new) (hf : t.fuse ≠ s.fuse) :
    slot.handler = .failed ∨ slot.handler = .recorded true ∨ slot.handler = .last := by
  cases h with
  | signalFailed retry hh => exact Or.inl hh
  | signalLast retry hh => exact Or.inr (Or.inr hh)
  | @signalRead retry zero hh _ =>
    cases zero
    · exact absurd rfl hf
    · exact Or.inr (Or.inl hh)
  | @signalWrite retry zero hh _ =>
    cases zero
    · exact absurd rfl hf
    · exact Or.inr (Or.inl hh)
  | resubmit retry _ _ _ keep => cases keep <;> exact absurd rfl hf
  | _ => exact absurd rfl hf

theorem Turn.handles (h : Turn q s i slot e t new) (hf : t.fuse ≠ s.fuse) :
    ∃ retry, e = .handle i retry := by
  cases h with
  | send | mark | receive _ _ => exact absurd rfl hf
  | _ => exact ⟨_, rfl⟩

theorem Layout.not_counted (hl : Layout q s) (hop : q.op = .write) :
    ∀ slot ∈ s.slots, slot.handler ≠ .counted := by
  intro slot hin hh
  have hcons := hl.consistent slot hin
  unfold Slot.Consistent at hcons
  rw [hh, hop] at hcons
  cases hcons.2

theorem Slot.processed_of_counted (h : slot.Consistent op)
    (hc : slot.counted = true) (hne : slot.handler ≠ .counted) : slot.processed op = true := by
  unfold Slot.Consistent at h
  unfold Slot.processed
  cases hh : slot.handler <;> cases op <;> simp_all

theorem Slot.past_of_processed (h : slot.processed op = true) :
    slot.handler.past = true := by
  unfold Slot.processed at h
  cases hh : slot.handler <;> cases op <;> simp_all [Handler.past]

/-- A response that was processed stays so. -/
theorem Turn.processed (h : Turn q s i slot e t new) (hp : slot.processed q.op = true) :
    new.processed q.op = true := by
  have hpast := Slot.past_of_processed hp
  cases h with
  | send | mark => exact hp
  | test | leave | record | pass | signalRead | signalWrite | signalLast | signalFailed
  | decrement | giveUp | lost => simp [Slot.processed]
  | receive h _ | found retry h _ | count retry h _ _ | resubmit retry h _ _ _ | fail retry h _ _
  | storeWrite retry h _ _ | ignoreWrite retry h _ _ =>
    rw [h] at hpast
    cases hpast
  | storeRead retry hh => simp [Slot.processed, hh] at hp
  | tally retry hh hop =>
    unfold Slot.processed at hp
    rw [hh, hop] at hp
    cases hp

/-- What the clients of a job answered is settled once they are all processed. -/
theorem Turn.failures (h : Turn q s i slot e t new) (hst : SlotStep s t i slot new)
    (hp : slot.processed q.op = true) (j : ℕ) : t.failures j = s.failures j := by
  have hpast := Slot.past_of_processed hp
  obtain ⟨hpast', hcode, -⟩ := h.past hpast
  have hidle : ∀ {x : Slot}, x.handler.past = true → x.handler ≠ .idle := by
    intro x hx hidle
    rw [hidle] at hx
    cases hx
  have hjob : new.job = slot.job := congrArg Prod.fst hst.key
  have hcount := countP_set_toNat (p := fun slot => slot.job = j ∧ slot.failure) (y := new) hst.slot
  have hsame : (new.job = j ∧ new.failure) ↔ (slot.job = j ∧ slot.failure) := by
    unfold Slot.failure
    rw [hjob, hcode]
    simp only [ne_eq, hidle hpast, hidle hpast', not_false_eq_true, true_and]
  unfold Progress.failures
  rw [hst.slots]
  simp only [hsame] at hcount
  omega

def Progress.Finished (q : Request) (s : Progress) : Prop :=
  s.Answered q ∧ ∀ slot ∈ s.slots, s.HasResponse slot.job

theorem Turn.finished (h : Turn q s i slot e t new) (hst : SlotStep s t i slot new)
    (hs : s.Finished q) : t.Finished q := by
  obtain ⟨⟨hproc, hfew⟩, hresp⟩ := hs
  have hslot := hproc slot hst.mem
  refine ⟨⟨?_, ?_⟩, ?_⟩
  · rw [hst.slots]
    exact forall_mem_set hproc (h.processed hslot)
  · intro j hj
    rw [h.failures hst hslot]
    exact hfew j hj
  · rw [hst.slots]
    apply forall_mem_set
    · intro slot' hin
      exact h.hasResponse hst (hresp slot' hin)
    · rw [show new.job = slot.job from congrArg Prod.fst hst.key]
      exact h.hasResponse hst (hresp slot hst.mem)

theorem Layout.countP_job (h : Layout q s) (hj : j < s.jobs.length) :
    s.slots.countP (fun slot => slot.job = j) = q.numClients := by
  have hkeys : s.slots.countP (fun slot => slot.job = j) =
      (s.slots.map fun slot => (slot.job, slot.client)).countP (fun key => key.1 = j) := by
    rw [List.countP_map]
    rfl
  have hrange : ∀ n, ((List.range n).flatMap fun job =>
      (List.range q.numClients).map fun client => (job, client)).countP (fun key => key.1 = j) =
      if j < n then q.numClients else 0 := by
    intro n
    induction n with
    | zero => rfl
    | succ n ih =>
      rw [List.range_succ, List.flatMap_append, List.countP_append, ih, List.flatMap_singleton,
        List.countP_map]
      have hlast : (List.range q.numClients).countP
          ((fun key : ℕ × ℕ => decide (key.1 = j)) ∘ fun client => (n, client)) =
          if n = j then q.numClients else 0 := by
        split_ifs with hn
        · rw [List.countP_eq_length.mpr (by simp [hn]), List.length_range]
        · exact List.countP_eq_zero.mpr (by simp [hn])
      rw [hlast]
      split_ifs <;> omega
  rw [hkeys, h.keys, hrange, if_pos hj]

theorem Layout.exists_success (h : Layout q s) (hj : j < s.jobs.length)
    (hfew : 2 * s.failures j ≤ q.numClients)
    (hproc : ∀ slot ∈ s.slots, slot.processed q.op = true) :
    ∃ slot ∈ s.slots, slot.job = j ∧ slot.code = sstackSuccess := by
  by_contra hnone
  push Not at hnone
  have hall : s.failures j = s.slots.countP fun slot => slot.job = j := by
    unfold Progress.failures
    apply List.countP_congr
    intro slot hin
    simp only [decide_eq_true_eq, and_iff_left_iff_imp]
    intro hjob
    have hpast := Slot.past_of_processed (hproc slot hin)
    refine ⟨?_, hnone slot hin hjob⟩
    intro hidle
    rw [hidle] at hpast
    cases hpast
  have hpos := q.pos
  rw [h.countP_job hj] at hall
  omega

structure RunOk (q : Request) (s : Progress) : Prop where
  stored : q.op = .write → ∀ slot ∈ s.slots, slot.handler.past = true →
    slot.code = sstackSuccess → s.HasResponse slot.job
  result : s.Awake → (∃ v, s.errNo = some v ∧ v ≠ sstackSuccess) ∨ s.Finished q

theorem OutcomeOk.finished (h : OutcomeOk q s) (hl : Layout q s)
    (hcounted : ∀ slot ∈ s.slots, slot.counted = true)
    (hne : ∀ slot ∈ s.slots, slot.handler ≠ .counted) : s.Finished q := by
  refine ⟨⟨?_, ?_⟩, ?_⟩
  · intro slot hin
    exact Slot.processed_of_counted (hl.consistent slot hin) (hcounted slot hin) (hne slot hin)
  · intro j _
    have hzero : s.failures j = 0 := by
      apply List.countP_eq_zero.mpr
      intro slot hin hf
      have hcode := ((h.slots slot hin).code (hcounted slot hin)).1
      simp [Slot.failure, hcode] at hf
    rw [hzero]
    exact Nat.zero_le _
  · intro slot hin
    exact (h.slots slot hin).payload (hcounted slot hin) (hne slot hin)

/-- A signal that reaches the sleeping thread leaves a failure, or comes at the end. -/
theorem RunOk.wake (hs : RunOk q s) (hok : OutcomeOk q s) (hleft : q.numJobsLeft₀ = 0)
    (hl : Layout q s) (h : Turn q s i slot e t new) (hst : SlotStep s t i slot new)
    (horderly : Orderly q s e) (hchange : t.fuse ≠ s.fuse) :
    (∃ v, s.errNo = some v ∧ v ≠ sstackSuccess) ∨ s.Finished q := by
  have hslotOk := hok.slots slot hst.mem
  have hasleep := (hst.fuse.resolve_left hchange).1
  obtain ⟨retry, rfl⟩ := h.handles hchange
  obtain ⟨hlast, hcounted⟩ := (horderly slot hst.slot).2 hasleep
  obtain hh | hh | hh := h.wakes hchange
  · exact Or.inl (hslotOk.failed hh)
  · right
    apply hok.finished hl (hok.all_counted hl hleft (hslotOk.zero hh))
    cases hop : q.op with
    | write => exact hl.not_counted hop
    | read => exact hcounted hop hh
  · right
    have hop := hslotOk.op_eq_write (by rw [hh]; rfl)
    have hall := hl.all (by rw [hasleep]; decide)
    obtain ⟨hproc, hfew⟩ := hlast hh
    refine ⟨⟨hproc, hfew⟩, ?_⟩
    intro slot' hin
    have hlt := (hl.job_lt hin).1
    obtain ⟨one, hone, hjob, hcode⟩ := hl.exists_success hlt (hfew _ (hall ▸ hlt)) hproc
    rw [← hjob]
    exact hs.stored hop one hone (Slot.past_of_processed (hproc one hone)) hcode

/-- A write response past its search has found the job map, and stored a success. -/
theorem Turn.stored (h : Turn q s i slot e t new) (hl : Layout q s)
    (hst : SlotStep s t i slot new) (horderly : Orderly q s e) (hop : q.op = .write)
    (hold : slot.handler.past = true → slot.code = sstackSuccess → s.HasResponse slot.job)
    (hpast : new.handler.past = true) (hcode : new.code = sstackSuccess) :
    t.HasResponse slot.job := by
  by_cases hbefore : slot.handler.past = true
  · rw [(h.past hbefore).2.1] at hcode
    exact h.hasResponse hst (hold hbefore hcode)
  · cases h with
    | send | mark => exact absurd hpast hbefore
    | receive _ _ | found _ _ _ | resubmit _ _ _ _ _ => cases hpast
    | lost retry hh hm =>
      have hfound := (horderly slot hst.slot).1 hop hh
      rw [hm] at hfound
      cases hfound
    | count _ _ hread _ | giveUp _ _ hread _ | fail _ _ hread _ =>
      rw [hop] at hread
      cases hread
    | storeWrite retry _ _ _ => exact hasResponse_store (hl.job_lt hst.mem).1
    | ignoreWrite retry _ _ hne => exact absurd hcode hne
    | storeRead _ hh | signalFailed _ hh | test _ hh _ | tally _ hh _ | decrement _ hh
    | leave _ hh _ | record _ hh _ | pass _ hh _ | signalRead _ hh _ | signalWrite _ hh _
    | signalLast _ hh =>
      rw [hh] at hbefore
      exact absurd rfl hbefore

theorem RunOk.turn (hs : RunOk q s) (hok : OutcomeOk q s) (hleft : q.numJobsLeft₀ = 0)
    (hl : Layout q s) (h : Turn q s i slot e t new) (hslot : s.slots[i]? = some slot)
    (horderly : Orderly q s e) : RunOk q t := by
  have hst := h.slotStep hslot (hl.consistent slot (List.mem_of_getElem? hslot))
  constructor
  · intro hop
    rw [hst.slots]
    apply forall_mem_set
    · intro slot' hin hpast hcode
      exact h.hasResponse hst (hs.stored hop slot' hin hpast hcode)
    · intro hpast hcode
      rw [show new.job = slot.job from congrArg Prod.fst hst.key]
      exact h.stored hl hst horderly hop (hs.stored hop slot hst.mem) hpast hcode
  · intro hawake
    have hbefore : (∃ v, s.errNo = some v ∧ v ≠ sstackSuccess) ∨ s.Finished q := by
      by_cases hchange : t.fuse = s.fuse
      · unfold Progress.Awake at hawake
        rw [hchange] at hawake
        exact hs.result hawake
      · exact hs.wake hok hleft hl h hst horderly hchange
    exact hbefore.imp (hok.keepsFailure hleft hl h hst.mem) (h.finished hst)

theorem RunOk.submit (h : RunOk q s) (hf : s.fuse = .submitting) :
    RunOk q (s.submit q) := by
  constructor
  · intro hop slot hin hpast hcode
    obtain hin | hnew := List.mem_append.mp hin
    · exact (h.stored hop slot hin hpast hcode).submit
    · obtain ⟨client, -, rfl⟩ := List.mem_map.mp hnew
      cases hpast
  · intro hawake
    have : (s.submit q).fuse = .submitting := hf
    simp [Progress.Awake, this] at hawake

theorem RunOk.setFuse (h : RunOk q s) {pc : FusePc}
    (hpc : pc = .woken ∨ pc = .returned → s.Awake) : RunOk q { s with fuse := pc } :=
  ⟨h.stored, fun hawake => h.result (hpc hawake)⟩

theorem step_runOk (hleft : q.numJobsLeft₀ = 0) (hl : Layout q s) (hok : OutcomeOk q s)
    (hs : RunOk q s)
    (horderly : Orderly q s e) (h : completionStep q s e = some t) : RunOk q t := by
  obtain ⟨hf, -, rfl⟩ | ⟨-, -, rfl⟩ | ⟨-, rfl⟩ | ⟨hf, rfl⟩ | ⟨rfl, -, -⟩ |
    ⟨i, slot, new, -, hslot, hturn⟩ := completionStep_cases h
  · exact hs.submit hf
  · exact hs.setFuse (by simp)
  · exact hs.setFuse (by simp)
  · exact hs.setFuse fun _ => Or.inl hf
  · exact absurd horderly id
  · exact hs.turn hok hleft hl hturn hslot horderly

theorem reach_runOk (hleft : q.numJobsLeft₀ = 0)
    (hr : (completionSystem q).Reach (Orderly q) s) : RunOk q s := by
  apply hr.invariant
  · intro s hs
    rw [show s = startRequest q from hs]
    constructor <;> simp [startRequest, Progress.Awake]
  · intro s e t hreach hs horderly ht
    exact step_runOk hleft (reach_layout hreach) (reach_outcomeOk hleft hreach) hs horderly ht

/-- When `sfs_wait_for_completion` returns in an orderly run, `err_no` holds a failure, or every
client's response was processed and every payload is a response to its job; for a write `err_no` is
`EIO` exactly when more than half of the clients of a job failed. The last is owed to `Orderly`
alone: no run records `EIO`. -/
theorem completion_outcome (hleft : q.numJobsLeft₀ = 0)
    (hr : (completionSystem q).Reach (Orderly q) s) (hret : s.fuse = .returned) :
    ((∃ v, s.errNo = some v ∧ v ≠ sstackSuccess) ∨
      ∀ j < q.numJobs,
        (∀ c < q.numClients, ∃ slot ∈ s.slots, slot.job = j ∧ slot.client = c ∧
          slot.processed q.op = true) ∧
        ∃ data r, s.jobs[j]? = some data ∧ data.payload = .response r ∧ r.job = j) ∧
    (q.op = .write →
      (s.errNo = some eio ↔ ∃ j < q.numJobs, q.numClients < 2 * s.failures j) ∧
      ∀ s', (completionSystem q).Reach System.AnyStep s' →
        ((s'.errNo = some eio ↔ ∃ j < q.numJobs, q.numClients < 2 * s'.failures j) ↔
          ∀ j < q.numJobs, 2 * s'.failures j ≤ q.numClients)) := by
  have hl := reach_layout hr
  have hok := reach_outcomeOk hleft hr
  have hall := hl.all (by rw [hret]; decide)
  have hresult := (reach_runOk hleft hr).result (Or.inr hret)
  constructor
  · refine hresult.imp_right ?_
    intro hfin j hj
    rw [← hall] at hj
    constructor
    · intro c hc
      obtain ⟨slot, hin, hjob, hclient⟩ := hl.exists_slot hj hc
      exact ⟨slot, hin, hjob, hclient, hfin.1.1 slot hin⟩
    · obtain ⟨slot, hin, hjob, -⟩ := hl.exists_slot hj q.pos
      obtain ⟨data, r, hdata, hpayload⟩ := hfin.2 slot hin
      rw [hjob] at hdata
      exact ⟨data, r, hdata, hpayload, (hok.jobs j data hdata).id r hpayload⟩
  · intro hop
    constructor
    · obtain ⟨v, hv, hne⟩ | hfin := hresult
      · exact absurd (hok.not_failure hop hv) hne
      · exact (hok.eio_iff hop).mpr hfin.1.2
    · intro s' hr'
      exact (reach_outcomeOk hleft hr').eio_iff hop

def replicatedWrite : Request := ⟨.write, 2, 3, 0, by decide, nofun⟩

/-- The thread sleeps while six responses come to their closing signals; one client failed. -/
def minorityFails : List CompletionEvent :=
  [.submit, .submit, .insert, .sleep] ++
    (List.range 6).flatMap (fun i => [.send i, .mark i]) ++
    (List.range 6).map (fun i => .receive i (if i = 1 then eio else sstackSuccess)) ++
    (List.range 6).flatMap (fun i => List.replicate 6 (.handle i .giveUp)) ++
    [.handle 0 .giveUp, .wakeup]

theorem completion_outcome_minority :
    ∃ s, (completionSystem replicatedWrite).run (Orderly replicatedWrite)
        (startRequest replicatedWrite) minorityFails = some s ∧ s.fuse = .returned ∧
      s.failures 0 = 1 ∧
      ((∃ v, s.errNo = some v ∧ v ≠ sstackSuccess) ∨
        ∀ j < 2,
          (∀ c < 3, ∃ slot ∈ s.slots, slot.job = j ∧ slot.client = c ∧
            slot.processed .write = true) ∧
          ∃ data r, s.jobs[j]? = some data ∧ data.payload = .response r ∧ r.job = j) ∧
      (s.errNo = some eio ↔ ∃ j < 2, 3 < 2 * s.failures j) := by
  have hrun : ∃ s, (completionSystem replicatedWrite).run (Orderly replicatedWrite)
      (startRequest replicatedWrite) minorityFails = some s ∧ s.fuse = .returned ∧
      s.failures 0 = 1 := ⟨_, rfl, rfl, rfl⟩
  obtain ⟨s, hs, hret, hone⟩ := hrun
  obtain ⟨hresult, hwrite⟩ := completion_outcome rfl (.run (.init rfl) hs) hret
  exact ⟨s, hs, hret, hone, hresult, (hwrite rfl).1⟩

def twoWrites : Request := ⟨.write, 2, 1, 0, Nat.one_pos, fun _ => rfl⟩

/-- The response to the first job is processed, and its last signal ends the wait. -/
def halfWrite : List CompletionEvent :=
  [.submit, .submit, .insert, .sleep, .send 0, .mark 0, .receive 0 100] ++
    List.replicate 7 (.handle 0 .giveUp) ++ [.wakeup]

theorem completion_early_return :
    ∃ s, (completionSystem twoWrites).Reach System.AnyStep s ∧ s.fuse = .returned ∧ s.errNo = none ∧
      (∀ slot ∈ s.slots, slot.job = 1 → slot.stage = .unsent ∧ slot.processed .write = false) ∧
      ∃ data, s.jobs[1]? = some data ∧ data.payload = .request := by
  refine System.exists_reach halfWrite rfl ⟨_, rfl, rfl, rfl, ?_, _, rfl, rfl⟩
  decide

end SeamlessStack.Jobs

import SeamlessStack.Jobs.Dispatcher

/-! As long as only jobs of high priority come and no pass meets more of them than it may send,
every job goes from its queue to its clients and to `pending_jobs`, in order. -/
namespace SeamlessStack.Jobs

open Lib

/-- Accepted jobs have high priority, and no pass finds one more than `MAX_HIGH_PRIO`. -/
def WithinBatch (s : Dispatch) : Event → Prop
  | .submit priority _ => priority ≤ highPriority ∨ priority > numPriorityMax
  | .pass => True
  | .iterate => s.pc = .inPass maxHighPrio → hasJobs s.jobList highPriority = false

instance (s : Dispatch) : ∀ e, Decidable (WithinBatch s e)
  | .submit priority _ =>
    inferInstanceAs (Decidable (priority ≤ highPriority ∨ priority > numPriorityMax))
  | .pass => inferInstanceAs (Decidable True)
  | .iterate =>
    inferInstanceAs
      (Decidable (s.pc = .inPass maxHighPrio → hasJobs s.jobList highPriority = false))

def onQueues (jobList : JobList) : List Job := (jobList.filterMap id).flatten

theorem sends_filter (job : Job) (n : ℕ) :
    (sends job).filter (fun m => m.1 = n) = if job.id = n then sends job else [] := by
  unfold sends
  rw [List.filter_map]
  split_ifs with h
  · simp [Function.comp_def, h]
  · simp [Function.comp_def, h]

theorem flatMap_sends_filter_of_notMem {l : List Job} {n : ℕ} (h : n ∉ l.map Job.id) :
    (l.flatMap sends).filter (fun m => m.1 = n) = [] := by
  induction l with
  | nil => rfl
  | cons job l ih =>
    rw [List.map_cons, List.mem_cons, not_or] at h
    rw [List.flatMap_cons, List.filter_append, ih h.2, sends_filter, if_neg (Ne.symm h.1)]
    rfl

variable {job : Job}

theorem flatMap_sends_filter {l : List Job} (hl : (l.map Job.id).Nodup) (h : job ∈ l) :
    (l.flatMap sends).filter (fun m => m.1 = job.id) = sends job := by
  induction l with
  | nil => cases h
  | cons head l ih =>
    rw [List.map_cons, List.nodup_cons] at hl
    rw [List.flatMap_cons, List.filter_append, sends_filter]
    obtain rfl | hin := List.mem_cons.mp h
    · rw [if_pos rfl, flatMap_sends_filter_of_notMem hl.1, List.append_nil]
    · have hne : head.id ≠ job.id := by
        intro heq
        apply hl.1
        rw [heq]
        exact List.mem_map_of_mem hin
      rw [if_neg hne, List.nil_append, ih hl.2 hin]

/-- The jobs `done` were sent and are pending, and the jobs `queue` wait. -/
structure Flow (s : Dispatch) (done queue : List Job) : Prop where
  jobList : s.jobList = [some queue, some [], none]
  pending : s.pendingJobs = [some done, some [], none]
  sent : s.sent = done.flatMap sends
  accepted : s.accepted = (done ++ queue).map fun job => (highPriority, job)
  nodup : ((done ++ queue).map Job.id).Nodup
  inPass : ∀ i, s.pc = .inPass i → ∀ p ∈ s.due, p = highPriority ∧
    (highPriority ∈ s.served ∨ i = 0 ∧ queue ≠ [])
  asleep : s.pc = .asleep → ∀ p ∈ s.due, p ∈ s.served

variable {s : Dispatch} {done queue : List Job}

theorem Flow.submit (h : Flow s done queue) (hnew : job.id ∉ s.accepted.map fun a => a.2.id) :
    Flow { s with
      jobList := [some (queue ++ [job]), some [], none]
      accepted := s.accepted ++ [(highPriority, job)] } done (queue ++ [job]) := by
  have hids : job.id ∉ (done ++ queue).map Job.id := by
    rw [h.accepted, List.map_map] at hnew
    exact hnew
  constructor
  · rfl
  · exact h.pending
  · exact h.sent
  · simp [h.accepted]
  · rw [← List.append_assoc, List.map_append, List.nodup_append]
    refine ⟨h.nodup, by simp, ?_⟩
    intro a ha b hb hab
    have hb : b = job.id := by simpa using hb
    rw [hab, hb] at ha
    exact hids ha
  · intro i hi p hp
    obtain ⟨hpr, hserved | ⟨hz, -⟩⟩ := h.inPass i hi p hp
    · exact ⟨hpr, Or.inl hserved⟩
    · exact ⟨hpr, Or.inr ⟨hz, by simp⟩⟩
  · exact h.asleep

theorem Flow.pass (h : Flow s done queue) :
    Flow { s with
      pc := .inPass 0
      due := [0, 1, 2].filter (hasJobs s.jobList)
      served := [] } done queue := by
  refine ⟨h.jobList, h.pending, h.sent, h.accepted, h.nodup, ?_, ?_⟩
  · intro i hi p hp
    have hi : i = 0 := by simpa using hi.symm
    rw [h.jobList] at hp
    cases queue with
    | nil => simp [hasJobs] at hp
    | cons job queue =>
      have hp : p = 0 := by simpa [hasJobs] using hp
      exact ⟨hp, Or.inr ⟨hi, by simp⟩⟩
  · intro hpc
    cases hpc

theorem Flow.finish {i : ℕ} (h : Flow s done [])
    (hpc : s.pc = .inPass i) : Flow { s with pc := .asleep } done [] := by
  refine ⟨h.jobList, h.pending, h.sent, h.accepted, h.nodup, ?_, ?_⟩
  · intro i hi
    cases hi
  · intro _ p hp
    obtain ⟨rfl, hserved | ⟨-, hne⟩⟩ := h.inPass i hpc p hp
    · exact hserved
    · exact absurd rfl hne

theorem Flow.send {i : ℕ}
    (h : Flow s done (job :: queue)) (hpc : s.pc = .inPass i) :
    Flow { s with
      jobList := [some queue, some [], none]
      pendingJobs := [some (done ++ [job]), some [], none]
      pc := .inPass (i + 1)
      sent := s.sent ++ sends job
      served := highPriority :: s.served } (done ++ [job]) queue := by
  constructor
  · rfl
  · rfl
  · simp [h.sent]
  · simp [h.accepted]
  · rw [List.append_assoc]
    exact h.nodup
  · intro j _ p hp
    exact ⟨(h.inPass i hpc p hp).1, Or.inl (by simp)⟩
  · intro hfalse
    cases hfalse

theorem step_flow {t : Dispatch} {e : Event} (h : Flow s done queue)
    (hbatch : WithinBatch s e) (ht : step s e = some t) :
    ∃ done' queue', Flow t done' queue' := by
  cases e with
  | submit priority job =>
    dsimp only [step] at ht
    split at ht
    · cases ht
    rename_i hnew
    by_cases hbad : priority < highPriority ∨ priority > numPriorityMax
    · simp only [sfsSubmitJob, if_pos hbad, Option.bind_eq_bind, Option.bind_some] at ht
      cases ht
      exact ⟨done, queue, h⟩
    · have hpr : priority = highPriority := by
        have := not_or.mp hbad
        obtain hle | hgt := hbatch
        · exact le_antisymm hle (not_lt.mp this.1)
        · exact absurd hgt this.2
      subst hpr
      simp only [sfsSubmitJob, sfsEnqueueJob, if_neg hbad, h.jobList] at ht
      cases ht
      exact ⟨done, queue ++ [job], h.submit hnew⟩
  | pass =>
    dsimp only [step] at ht
    split at ht
    · cases ht
      exact ⟨done, queue, h.pass⟩
    · cases ht
  | iterate =>
    dsimp only [step] at ht
    split at ht
    · cases ht
    rename_i i hpc
    unfold Dispatch.iterate at ht
    cases queue with
    | nil =>
      simp only [h.jobList] at ht
      cases ht
      have hfinish := h.finish hpc
      rw [h.jobList] at hfinish
      exact ⟨done, [], hfinish⟩
    | cons job queue =>
      have hi : i ≠ maxHighPrio := by
        intro heq
        have := hbatch (by rw [hpc, heq])
        rw [h.jobList] at this
        cases this
      simp only [h.jobList] at ht
      have hadd : sfsEnqueueJob highPriority s.pendingJobs job =
          some (.ok [some (done ++ [job]), some [], none]) := by
        rw [h.pending]
        rfl
      simp only [show highPriority.toNat = 0 from rfl, List.getElem?_cons_zero, if_neg hi, hadd,
        Option.bind_eq_bind, Option.bind_some] at ht
      cases ht
      exact ⟨done ++ [job], queue, h.send hpc⟩

theorem reach_flow (hr : dispatchSystem.Reach WithinBatch s) :
    ∃ done queue, Flow s done queue := by
  apply hr.invariant (I := fun s => ∃ done queue, Flow s done queue)
  · intro s hs
    rw [show s = start from hs]
    refine ⟨[], [], rfl, rfl, rfl, rfl, by simp, ?_, ?_⟩ <;> simp [start]
  · intro s e t _ hs hbatch ht
    obtain ⟨done, queue, hflow⟩ := hs
    exact step_flow hflow hbatch ht

/-- A queued job was not sent, and a sent job was sent to each client once and is pending
once. -/
theorem Flow.placed (h : Flow s done queue) (hjob : job ∈ done ++ queue) :
    (job ∈ queue ∧ s.sent.filter (fun m => m.1 = job.id) = [] ∧
      job ∉ onQueues s.pendingJobs) ∨
    (job ∉ onQueues s.jobList ∧ s.sent.filter (fun m => m.1 = job.id) = sends job ∧
      (onQueues s.pendingJobs).count job = 1) := by
  have hnodup := h.nodup
  rw [List.map_append, List.nodup_append] at hnodup
  obtain ⟨hdone, -, hdisjoint⟩ := hnodup
  have hpending : onQueues s.pendingJobs = done := by
    rw [h.pending]
    simp [onQueues]
  have hqueued : onQueues s.jobList = queue := by
    rw [h.jobList]
    simp [onQueues]
  rw [hpending, hqueued, h.sent]
  obtain hin | hin := List.mem_append.mp hjob
  · right
    refine ⟨?_, flatMap_sends_filter hdone hin, ?_⟩
    · intro hq
      exact hdisjoint _ (List.mem_map_of_mem hin) _ (List.mem_map_of_mem hq) rfl
    · exact List.count_eq_one_of_mem (List.Nodup.of_map _ hdone) hin
  · left
    have hnot : job.id ∉ done.map Job.id := by
      intro hd
      exact hdisjoint _ hd _ (List.mem_map_of_mem hin) rfl
    refine ⟨hin, flatMap_sends_filter_of_notMem hnot, ?_⟩
    intro hd
    exact hnot (List.mem_map_of_mem hd)

/-- The jobs of one priority are sent in the order they were submitted in. -/
theorem Flow.ordered (h : Flow s done queue) (p : ℤ) :
    ∃ first rest, (s.accepted.filter (fun a => a.1 = p)).map Prod.snd = first ++ rest ∧
      s.sent.filter (fun m => s.accepted.any fun a => a.1 = p ∧ a.2.id = m.1) =
        first.flatMap sends := by
  by_cases hp : p = highPriority
  · subst hp
    refine ⟨done, queue, ?_, ?_⟩
    · rw [h.accepted, List.filter_map, List.map_map]
      simp [Function.comp_def]
    · rw [h.sent, List.filter_eq_self]
      intro m hm
      obtain ⟨job, hjob, hsend⟩ := List.mem_flatMap.mp hm
      obtain ⟨j, -, rfl⟩ := List.mem_map.mp hsend
      rw [List.any_eq_true, h.accepted]
      exact ⟨(highPriority, job), List.mem_map.mpr ⟨job, by simp [hjob], rfl⟩, by simp⟩
  · have hnone : ∀ a ∈ s.accepted, a.1 ≠ p := by
      intro a hin
      rw [h.accepted] at hin
      obtain ⟨job, -, rfl⟩ := List.mem_map.mp hin
      exact Ne.symm hp
    refine ⟨[], [], ?_, ?_⟩
    · rw [h.accepted, List.filter_map, List.map_map]
      simp [Function.comp_def, Ne.symm hp]
    · rw [List.flatMap_nil, List.filter_eq_nil_iff]
      intro m _ hany
      obtain ⟨a, ha, heq⟩ := List.any_eq_true.mp hany
      exact hnone a ha (of_decide_eq_true heq).1

/-- Within the batches, every accepted job is on its queue and unsent, or was sent to each of its
clients and put on `pending_jobs` once; each priority is sent in order; and a pass that is over sent
a job from every queue that had jobs when it began. -/
theorem dispatcher_delivers (hr : dispatchSystem.Reach WithinBatch s) :
    (∀ p job, (p, job) ∈ s.accepted →
      ((∃ queue, s.jobList[p.toNat]? = some (some queue) ∧ job ∈ queue) ∧
        s.sent.filter (fun m => m.1 = job.id) = [] ∧ job ∉ onQueues s.pendingJobs) ∨
      (job ∉ onQueues s.jobList ∧ s.sent.filter (fun m => m.1 = job.id) = sends job ∧
        (onQueues s.pendingJobs).count job = 1)) ∧
    (∀ p, ∃ first rest, (s.accepted.filter (fun a => a.1 = p)).map Prod.snd = first ++ rest ∧
      s.sent.filter (fun m => s.accepted.any fun a => a.1 = p ∧ a.2.id = m.1) =
        first.flatMap sends) ∧
    (s.pc = .asleep → ∀ p ∈ s.due, p ∈ s.served) := by
  obtain ⟨done, queue, hflow⟩ := reach_flow hr
  refine ⟨?_, hflow.ordered, hflow.asleep⟩
  intro p job hin
  rw [hflow.accepted] at hin
  obtain ⟨job', hjob, heq⟩ := List.mem_map.mp hin
  obtain ⟨rfl, rfl⟩ := Prod.mk.inj heq
  obtain ⟨hq, hrest⟩ | hsent := hflow.placed hjob
  · left
    refine ⟨⟨queue, ?_, hq⟩, hrest⟩
    rw [hflow.jobList]
    rfl
  · exact Or.inr hsent

def firstOfTwo : List Event :=
  [.submit 0 ⟨1, 2⟩, .submit 0 ⟨2, 1⟩, .pass, .iterate]

theorem dispatcher_delivers_two :
    ∃ s, dispatchSystem.run WithinBatch start firstOfTwo = some s ∧
      s.sent = [(1, 0), (1, 1)] ∧ s.jobList = [some [⟨2, 1⟩], some [], none] ∧
      (∀ p job, (p, job) ∈ s.accepted →
        ((∃ queue, s.jobList[p.toNat]? = some (some queue) ∧ job ∈ queue) ∧
          s.sent.filter (fun m => m.1 = job.id) = [] ∧ job ∉ onQueues s.pendingJobs) ∨
        (job ∉ onQueues s.jobList ∧ s.sent.filter (fun m => m.1 = job.id) = sends job ∧
          (onQueues s.pendingJobs).count job = 1)) ∧
      (∀ p, ∃ first rest, (s.accepted.filter (fun a => a.1 = p)).map Prod.snd = first ++ rest ∧
        s.sent.filter (fun m => s.accepted.any fun a => a.1 = p ∧ a.2.id = m.1) =
          first.flatMap sends) ∧
      (s.pc = .asleep → ∀ p ∈ s.due, p ∈ s.served) := by
  have hrun : ∃ s, dispatchSystem.run WithinBatch start firstOfTwo = some s ∧
      s.sent = [(1, 0), (1, 1)] ∧ s.jobList = [some [⟨2, 1⟩], some [], none] := ⟨_, rfl, rfl, rfl⟩
  obtain ⟨s, hs, hsent, hlist⟩ := hrun
  exact ⟨s, hs, hsent, hlist, dispatcher_delivers (.run (.init rfl) hs)⟩

def longBatch : List Event :=
  (List.range 65).map (fun n => .submit 0 ⟨n, 1⟩) ++ [.pass] ++ List.replicate 65 .iterate

/-- The last job of the batch is detached from its queue and then dropped. -/
theorem dispatcher_loses_job :
    ∃ s, dispatchSystem.Reach System.AnyStep s ∧ ((0 : ℤ), (⟨64, 1⟩ : Job)) ∈ s.accepted ∧
      onQueues s.jobList = [] ∧ (64, 0) ∉ s.sent ∧ ⟨64, 1⟩ ∉ onQueues s.pendingJobs := by
  have hany : (dispatchSystem.run System.AnyStep start longBatch).any (fun s =>
      ((0 : ℤ), (⟨64, 1⟩ : Job)) ∈ s.accepted ∧ onQueues s.jobList = [] ∧ (64, 0) ∉ s.sent ∧
        ⟨64, 1⟩ ∉ onQueues s.pendingJobs) = true := by
    decide +kernel
  obtain ⟨s, hs, hlost⟩ := (Option.any_eq_true _ _).mp hany
  have hreach : dispatchSystem.Reach System.AnyStep s := .run (.init rfl) hs
  exact ⟨s, hreach, of_decide_eq_true hlost⟩

end SeamlessStack.Jobs

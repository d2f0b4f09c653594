import SeamlessStack.Lib.Linked
import SeamlessStack.ThreadPool.Actions

/-! `pool_head`, `pool_tail` and the `job_next` links always list the jobs that were queued and not
started, in order. -/
namespace SeamlessStack.ThreadPool

open Lib Function

def Pool.next (s : Pool) (a : ℕ) : Option ℕ := some (s.jobs a).jobNext

/-- The list `l` of requests is what the queue holds. -/
structure Holds (s : Pool) (l : List Request) : Prop where
  order : s.queued = s.started ++ l
  links : Linked s.next s.poolHead (l.map Request.job) 0
  tail : s.poolTail = (l.map Request.job).getLastD 0
  calls : ∀ r ∈ l, (s.jobs r.job).jobFunc = r.func ∧ (s.jobs r.job).jobArg = r.arg

structure QueueOk (s : Pool) : Prop where
  holds : ∃ l, Holds s l
  nodup : (s.queued.map Request.job).Nodup
  nonzero : 0 ∉ s.queued.map Request.job

variable {s t : Pool}

theorem QueueOk.congr (h : QueueOk s) (hhead : t.poolHead = s.poolHead)
    (htail : t.poolTail = s.poolTail) (hjobs : t.jobs = s.jobs) (hqueued : t.queued = s.queued)
    (hstarted : t.started = s.started) : QueueOk t := by
  obtain ⟨l, hl⟩ := h.holds
  have hnext : t.next = s.next := by
    unfold Pool.next
    rw [hjobs]
  constructor
  · refine ⟨l, ?_, ?_, ?_, ?_⟩
    · rw [hqueued, hstarted, hl.order]
    · rw [hnext, hhead]
      exact hl.links
    · rw [htail, hl.tail]
    · rw [hjobs]
      exact hl.calls
  · rw [hqueued]
    exact h.nodup
  · rw [hqueued]
    exact h.nonzero

theorem QueueOk.head_eq_zero (h : QueueOk s) {l : List Request} (hl : Holds s l) :
    s.poolHead = 0 ↔ l = [] := by
  have hmem : 0 ∉ l.map Request.job := by
    have := h.nonzero
    rw [hl.order, List.map_append, List.mem_append, not_or] at this
    exact this.2
  constructor
  · intro hz
    obtain hin | ⟨hnil, -⟩ := hl.links.start
    · exact absurd (hz ▸ hin) hmem
    · exact List.map_eq_nil_iff.mp hnil
  · intro hnil
    have := hl.links
    rw [hnil] at this
    exact this

theorem QueueOk.head_eq_zero_iff (h : QueueOk s) :
    s.poolHead = 0 ↔ s.queued = s.started := by
  obtain ⟨l, hl⟩ := h.holds
  rw [h.head_eq_zero hl, hl.order]
  simp

theorem QueueOk.takeJob (h : QueueOk s) {w : ℕ} (hhead : s.poolHead ≠ 0) :
    QueueOk (s.takeJob w) := by
  obtain ⟨l, hl⟩ := h.holds
  cases l with
  | nil => exact absurd ((h.head_eq_zero hl).mpr rfl) hhead
  | cons r l =>
    obtain ⟨hr, n, hn, hrest⟩ := linked_cons.mp hl.links
    have hn : (s.jobs r.job).jobNext = n := Option.some.inj hn
    obtain ⟨hfunc, harg⟩ := hl.calls r (by simp)
    refine ⟨⟨l, ?_, ?_, ?_, ?_⟩, h.nodup, h.nonzero⟩
    · simp [Pool.takeJob, Pool.setWorker, hl.order, hr, hfunc, harg]
    · have hhead' : (s.takeJob w).poolHead = n := by
        rw [← hn, ← hr]
        rfl
      rw [hhead']
      exact hrest
    · have hnot : r.job ∉ l.map Request.job := by
        have := h.nodup
        rw [hl.order, List.map_append] at this
        exact (List.nodup_cons.mp (List.nodup_append.mp this).2.1).1
      have hgoal : (s.takeJob w).poolTail = if s.poolHead = s.poolTail then 0 else s.poolTail := rfl
      rw [hgoal, hr, hl.tail, List.map_cons, List.getLastD_cons]
      cases hm : l.map Request.job with
      | nil => simp
      | cons b m =>
        rw [List.getLastD_cons, List.getLastD_cons, if_neg]
        intro heq
        apply hnot
        rw [hm, heq]
        exact List.getLastD_mem_cons
    · intro r' hr'
      exact hl.calls r' (by simp [hr'])

theorem QueueOk.append {q : Pool} {a func arg : ℕ} (h : QueueOk s) (ha : a ≠ 0)
    (hnew : a ∉ s.queued.map Request.job) (hq : s.append a func arg = some q) : QueueOk q := by
  obtain ⟨l, hl⟩ := h.holds
  have hlnew : a ∉ l.map Request.job := by
    rw [hl.order, List.map_append, List.mem_append, not_or] at hnew
    exact hnew.2
  have hnodup : (s.queued.map Request.job ++ [a]).Nodup := by
    rw [List.nodup_append]
    refine ⟨h.nodup, by simp, ?_⟩
    intro b hb c hc hbc
    rw [hbc, List.mem_singleton.mp hc] at hb
    exact hnew hb
  have hnonzero : 0 ∉ s.queued.map Request.job ++ [a] := by
    rw [List.mem_append, List.mem_singleton, not_or]
    exact ⟨h.nonzero, ha.symm⟩
  unfold Pool.append at hq
  dsimp only at hq
  split at hq
  · rename_i hhead
    cases hq
    have hnil := (h.head_eq_zero hl).mp hhead
    refine ⟨⟨[⟨a, func, arg⟩], ?_, ?_, rfl, ?_⟩, by simpa using hnodup, by simpa using hnonzero⟩
    · simp [hl.order, hnil]
    · refine ⟨rfl, 0, ?_, rfl⟩
      simp [Pool.next]
    · simp
  split at hq
  · cases hq
  · rename_i hhead htail
    cases hq
    have hne : l ≠ [] := fun hnil => hhead ((h.head_eq_zero hl).mpr hnil)
    obtain ⟨m, r, rfl⟩ := List.eq_nil_or_concat' l |>.resolve_left hne
    have hlast : s.poolTail = r.job := by
      rw [hl.tail]
      simp
    have hra : r.job ≠ a := ne_of_mem_of_not_mem (by simp) hlnew
    have hmnodup : r.job ∉ m.map Request.job := by
      have := h.nodup
      rw [hl.order, List.map_append, List.map_append] at this
      have := (List.nodup_append.mp this).2.1
      intro hin
      exact (List.nodup_append.mp this).2.2 _ hin _ (by simp) rfl
    refine ⟨⟨m ++ [r] ++ [⟨a, func, arg⟩], ?_, ?_, ?_, ?_⟩, by simpa using hnodup,
      by simpa using hnonzero⟩
    · simp [hl.order]
    · rw [List.map_append, List.map_append]
      have hlinks := hl.links
      rw [List.map_append] at hlinks
      apply Linked.extend hlinks
      · intro c hc
        have hcr : c ≠ r.job := ne_of_mem_of_not_mem hc hmnodup
        have hcl : c ∈ (m ++ [r]).map Request.job := by
          rw [List.map_append]
          exact List.mem_append_left _ hc
        have hca : c ≠ a := ne_of_mem_of_not_mem hcl hlnew
        simp [Pool.next, hlast, update_of_ne hcr, update_of_ne hca]
      · simp [Pool.next, hlast]
      · simp [Pool.next, hlast, update_of_ne hra.symm]
    · simp
    · intro c hc
      rw [List.mem_append, List.mem_singleton] at hc
      obtain hc | rfl := hc
      · have hca : c.job ≠ a := ne_of_mem_of_not_mem (List.mem_map_of_mem hc) hlnew
        have hcalls := hl.calls c hc
        by_cases hcr : c.job = r.job
        · rw [hcr] at hcalls
          simpa [hlast, hcr, update_of_ne hra] using hcalls
        · simpa [hlast, update_of_ne hcr, update_of_ne hca] using hcalls
      · simp [hlast, update_of_ne hra.symm]

theorem QueueOk.workerCleanup (h : QueueOk s) (w : ℕ) (ok : Bool) :
    QueueOk (s.workerCleanup w ok) := by
  unfold Pool.workerCleanup
  dsimp only
  split_ifs <;> exact h.congr rfl rfl rfl rfl rfl

theorem QueueOk.notifyWaiters (h : QueueOk s) : QueueOk s.notifyWaiters := by
  unfold Pool.notifyWaiters
  split
  · exact h.congr rfl rfl rfl rfl rfl
  · exact h

theorem QueueOk.destroyWaitRound (h : QueueOk s) : QueueOk s.destroyWaitRound := by
  unfold Pool.destroyWaitRound
  split_ifs <;> exact h.congr rfl rfl rfl rfl rfl

theorem QueueOk.act {ok : Bool} (h : QueueOk s) (ha : Act ok s t) : QueueOk t := by
  cases ha with
  | takeJob _ hhead _ => exact h.takeJob hhead
  | notify => exact h.notifyWaiters
  | cleanup _ => exact h.workerCleanup _ ok
  | timeoutExit _ _ _ _ => exact (h.workerCleanup _ ok).congr rfl rfl rfl rfl rfl
  | jobCleanup _ =>
    unfold Pool.jobCleanup
    dsimp only
    split_ifs
    · apply QueueOk.notifyWaiters
      exact h.congr rfl rfl rfl rfl rfl
    · exact h.congr rfl rfl rfl rfl rfl
  | waitRound n =>
    unfold Pool.waitRound
    split_ifs <;> exact h.congr rfl rfl rfl rfl rfl
  | destroyWaitRound _ => exact h.destroyWaitRound
  | wake _ _ | create _ | enterIdle _ | sleep _ _ _ | leaveIdle _ | waiterWoken n
  | destroyBusyRound _ | destroyWaitWoken _ | destroyBusyWoken _ =>
    exact h.congr rfl rfl rfl rfl rfl

theorem step_queueOk {e : Event} (hs : QueueOk s) (h : step s e = some t) :
    QueueOk t := by
  apply step_preserves (I := QueueOk) _ _ _ hs h
  · intro ok s t hs ha
    exact hs.act ha
  · intro s a func arg q hs ha hnew hq
    exact hs.append ha hnew hq
  · intro s hs
    exact QueueOk.destroyWaitRound (hs.congr rfl rfl rfl rfl rfl)

variable {minThreads maxThreads linger : UInt32} {p : Pool}

theorem create_queueOk (hp : sstackThreadPoolCreate minThreads maxThreads linger = some p) :
    QueueOk p := by
  unfold sstackThreadPoolCreate at hp
  split at hp
  · cases hp
  · cases hp
    refine ⟨⟨[], rfl, rfl, rfl, ?_⟩, ?_, ?_⟩ <;> simp

theorem reach_queueOk {G : Pool → Event → Prop}
    (hp : sstackThreadPoolCreate minThreads maxThreads linger = some p)
    (hr : (poolSystem p).Reach G s) : QueueOk s := by
  apply hr.invariant
  · intro s hs
    rw [show s = p from hs]
    exact create_queueOk hp
  · intro s e t _ hs _ ht
    exact step_queueOk hs ht

/-- Jobs are started in the order they were queued, as they were queued, and none twice; the others
are what the links from `pool_head` to `pool_tail` list. -/
theorem poolQueue_order (hp : sstackThreadPoolCreate minThreads maxThreads linger = some p)
    (hr : (poolSystem p).Reach NotDestroyed s) :
    ∃ unstarted : List Request,
      s.queued = s.started ++ unstarted ∧ (s.started.map Request.job).Nodup ∧
      (s.poolHead = 0 ↔ unstarted = []) ∧
      Linked s.next s.poolHead (unstarted.map Request.job) 0 ∧
      (unstarted ≠ [] → (unstarted.map Request.job).getLast? = some s.poolTail) := by
  have hq := reach_queueOk hp hr
  obtain ⟨l, hl⟩ := hq.holds
  refine ⟨l, hl.order, ?_, hq.head_eq_zero hl, hl.links, ?_⟩
  · have hnodup := hq.nodup
    rw [hl.order, List.map_append] at hnodup
    exact (List.nodup_append.mp hnodup).1
  · intro hne
    obtain ⟨m, r, rfl⟩ := List.eq_nil_or_concat' l |>.resolve_left hne
    rw [hl.tail]
    simp

def threeJobs : List Event :=
  [.queue 16 1 5 true none, .queue 32 2 6 true none, .work 0 true, .queue 48 3 7 true none]

/-- A pool of one worker that took the first of three jobs. -/
theorem poolQueue_order_three :
    ∃ p s, sstackThreadPoolCreate 1 1 0 = some p ∧
      (poolSystem p).run NotDestroyed p threeJobs = some s ∧
      s.started = [⟨16, 1, 5⟩] ∧
      ∃ unstarted : List Request,
        s.queued = s.started ++ unstarted ∧ (s.started.map Request.job).Nodup ∧
        (s.poolHead = 0 ↔ unstarted = []) ∧
        Linked s.next s.poolHead (unstarted.map Request.job) 0 ∧
        (unstarted ≠ [] → (unstarted.map Request.job).getLast? = some s.poolTail) := by
  have hrun : ∃ p s, sstackThreadPoolCreate 1 1 0 = some p ∧
      (poolSystem p).run NotDestroyed p threeJobs = some s ∧ s.started = [⟨16, 1, 5⟩] :=
        ⟨_, _, rfl, rfl, rfl⟩
  obtain ⟨p, s, hp, hs, hstarted⟩ := hrun
  have hreach : (poolSystem p).Reach NotDestroyed s := .run (.init rfl) hs
  exact ⟨p, s, hp, hs, hstarted, poolQueue_order hp hreach⟩

end SeamlessStack.ThreadPool

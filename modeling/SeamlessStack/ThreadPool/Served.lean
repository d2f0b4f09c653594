import SeamlessStack.ThreadPool.Counters

/-! As long as `create_worker` succeeds, some worker will look at the queue. With the counters this
settles which pools keep their bounds. -/
namespace SeamlessStack.ThreadPool

open Lib

/-- Until the pool is destroyed, an unstarted job has a worker that will look at the queue. -/
def Served (s : Pool) : Prop :=
  s.poolDestroy = false → s.poolHead ≠ 0 →
    ∃ (w : ℕ) (st : Worker), s.workers[w]? = some st ∧ st.live = true ∧ st.isAsleep = false

theorem Served.of_worker {t : Pool} {w : ℕ} {st : Worker} (hw : t.workers[w]? = some st)
    (hlive : st.live = true) (hawake : st.isAsleep = false) : Served t := by
  intro _ _
  exact ⟨w, st, hw, hlive, hawake⟩

theorem Served.of_head {t : Pool} (hhead : t.poolHead = 0) : Served t := by
  intro _ hne
  exact absurd hhead hne

theorem Served.congr {s t : Pool} (h : Served s) (hworkers : t.workers = s.workers)
    (hhead : t.poolHead = s.poolHead) (hdestroy : t.poolDestroy = s.poolDestroy) : Served t := by
  unfold Served
  rw [hworkers, hhead, hdestroy]
  exact h

theorem Served.createWorker (s : Pool) : Served s.createWorker := by
  have hlast : s.createWorker.workers[s.workers.length]? = some .looping := by
    simp [Pool.createWorker]
  exact .of_worker hlast rfl rfl

theorem Served.workerCleanup {s : Pool} (h : Limits s) (w : ℕ) :
    Served (s.workerCleanup w true) := by
  obtain ⟨hd, -, ht⟩ | ⟨-, -, ht⟩ | ⟨-, hcreate, ht⟩ := workerCleanup_cases s w true
  · rw [ht]
    intro hfalse
    exact absurd (hfalse.symm.trans hd) (by decide)
  · rw [ht]
    exact Served.createWorker _
  · rw [ht]
    intro hdestroy hhead
    have hlt : s.poolNthreads - 1 < s.poolMaximum := by
      have := h.le_max
      omega
    exact absurd (hcreate hdestroy hhead hlt) (by decide)

theorem Served.notifyWaiters {s : Pool} (h : Served s) : Served s.notifyWaiters := by
  unfold Pool.notifyWaiters
  split
  · exact h.congr rfl rfl rfl
  · exact h

theorem Served.act {s t : Pool} (h : Served s) (hl : Limits s) (ha : Act true s t) : Served t := by
  cases ha with
  | wake timedout hw => exact .of_worker (workers_set_self hw _) rfl rfl
  | create _ => exact .createWorker s
  | enterIdle hw => exact .of_worker (workers_set_self hw _) rfl rfl
  | notify => exact h.notifyWaiters
  | sleep timed hw hhead => exact .of_head hhead
  | leaveIdle hw | takeJob hw _ _ => exact .of_worker (workers_set_self hw _) rfl rfl
  | cleanup hw => exact .workerCleanup hl _
  | @timeoutExit w hw hhead _ _ =>
    apply Served.of_head
    show (s.workerCleanup w true).poolHead = 0
    obtain ⟨-, -, ht⟩ | ⟨-, -, ht⟩ | ⟨-, -, ht⟩ := workerCleanup_cases s w true
    · rw [ht]
      exact hhead
    · rw [ht]
      exact hhead
    · rw [ht]
      exact hhead
  | jobCleanup hw => exact .of_worker (jobCleanup_self hw) rfl rfl
  | waitRound n =>
    unfold Pool.waitRound
    split
    · exact h.congr rfl rfl rfl
    · exact h.congr rfl rfl rfl
  | waiterWoken n => exact h.congr rfl rfl rfl
  | destroyWaitRound _ =>
    unfold Pool.destroyWaitRound
    split
    · exact h.congr rfl rfl rfl
    · exact h.congr rfl rfl rfl
  | destroyBusyRound _ | destroyWaitWoken _ | destroyBusyWoken _ => exact h.congr rfl rfl rfl

/-- A sleeping worker is signalled; without idle ones one is created, or all are busy. -/
theorem Served.offer {s t : Pool} {target : Option ℕ} (hc : CountOk s) (hl : Limits s)
    (h : s.offer true target = some t) : Served t := by
  have hidle := hc.idle
  have hnthreads := hc.nthreads
  unfold Pool.offer at h
  split at h
  · rename_i hpos
    cases target with
    | some w =>
      unfold Pool.signalWork at h
      dsimp only at h
      split at h
      · rename_i hw
        cases h
        exact .of_worker (workers_set_self hw _) rfl rfl
      · cases h
    | none =>
      unfold Pool.signalWork at h
      dsimp only at h
      split at h
      · cases h
      · rename_i hany
        cases h
        have hcount : 0 < s.workers.countP Worker.idle := by omega
        obtain ⟨st, hst, hi⟩ := List.countP_pos_iff.mp hcount
        obtain ⟨w, hw⟩ := List.mem_iff_getElem?.mp hst
        have hawake : st.isAsleep = false := by
          rw [Bool.eq_false_iff]
          intro has
          exact hany (List.any_eq_true.mpr ⟨st, hst, has⟩)
        have hlive : st.live = true := by
          cases st <;> first | rfl | cases hi
        exact .of_worker hw hlive hawake
  · rename_i hnone
    split at h
    · cases h
      exact .createWorker s
    · rename_i hfull
      cases h
      have hcount : 0 < s.workers.countP Worker.live := by
        have hmax := hl.pos
        have : ¬ s.poolNthreads < s.poolMaximum := fun hlt => hfull ⟨hlt, rfl⟩
        omega
      obtain ⟨st, hst, hlive⟩ := List.countP_pos_iff.mp hcount
      obtain ⟨w, hw⟩ := List.mem_iff_getElem?.mp hst
      have hzero : s.workers.countP Worker.idle = 0 := by omega
      have hnot := List.countP_eq_zero.mp hzero st hst
      have hawake : st.isAsleep = false := by
        cases st <;> first | rfl | exact absurd rfl hnot
      exact .of_worker hw hlive hawake

theorem step_served {s t : Pool} {e : Event} (hc : CountOk s) (hl : Limits s) (hs : Served s)
    (hok : e.createOk = true) (h : step s e = some t) : Served t := by
  have hacts : ∀ s t, CountOk s ∧ Limits s ∧ Served s → Act true s t →
      CountOk t ∧ Limits t ∧ Served t := by
    intro s t hs ha
    exact ⟨hs.1.act ha, hs.2.1.act hs.1 ha, hs.2.2.act hs.2.1 ha⟩
  obtain ⟨a, func, arg, ok, target, q, rfl, -, -, hq, ht⟩ | ⟨rfl, -, rfl⟩ | hchain := step_cases h
  · rw [show ok = true from hok] at ht
    exact Served.offer (hc.append hq) (hl.append hq) ht
  · intro hdestroy
    unfold Pool.sstackThreadPoolDestroy Pool.destroyWaitRound at hdestroy
    split at hdestroy <;> cases hdestroy
  · rw [hok] at hchain
    exact (acts_preserve hacts ⟨hc, hl, hs⟩ hchain).2.2

theorem act_poolDestroy {ok : Bool} {s t : Pool} (ha : Act ok s t) :
    t.poolDestroy = s.poolDestroy := by
  have hcleanup : ∀ w, (s.workerCleanup w ok).poolDestroy = s.poolDestroy := by
    intro w
    obtain ⟨-, -, ht⟩ | ⟨-, -, ht⟩ | ⟨-, -, ht⟩ := workerCleanup_cases s w ok <;> rw [ht] <;> rfl
  cases ha with
  | cleanup _ | timeoutExit _ _ _ _ => exact hcleanup _
  | notify =>
    unfold Pool.notifyWaiters
    split <;> rfl
  | jobCleanup _ =>
    unfold Pool.jobCleanup Pool.notifyWaiters
    dsimp only
    split <;> [split; skip] <;> rfl
  | waitRound n =>
    unfold Pool.waitRound
    split <;> rfl
  | destroyWaitRound _ =>
    unfold Pool.destroyWaitRound
    split <;> rfl
  | _ => rfl

theorem step_poolDestroy {s t : Pool} {e : Event} (he : e ≠ .destroy)
    (hs : s.poolDestroy = false) (h : step s e = some t) : t.poolDestroy = false := by
  have hacts : ∀ {ok s t}, s.poolDestroy = false → Relation.ReflTransGen (Act ok) s t →
      t.poolDestroy = false := by
    intro ok s t hs hchain
    apply acts_preserve (I := fun s => s.poolDestroy = false) _ hs hchain
    intro u v hu ha
    rw [act_poolDestroy ha, hu]
  obtain ⟨a, func, arg, ok, target, q, -, -, -, hq, ht⟩ | ⟨hd, -, -⟩ | hchain := step_cases h
  · have hq' : q.poolDestroy = false := by
      unfold Pool.append at hq
      dsimp only at hq
      split_ifs at hq <;> cases hq <;> exact hs
    exact hacts hq' (offer_acts ht)
  · exact absurd hd he
  · exact hacts hs hchain

section Runs

variable {minThreads maxThreads linger : UInt32} {p s : Pool} {G : Pool → Event → Prop}

theorem create_countOk (hp : sstackThreadPoolCreate minThreads maxThreads linger = some p) :
    CountOk p := by
  unfold sstackThreadPoolCreate at hp
  split at hp
  · cases hp
  · cases hp
    constructor <;> simp

theorem reach_countOk (hp : sstackThreadPoolCreate minThreads maxThreads linger = some p)
    (hr : (poolSystem p).Reach G s) : CountOk s := by
  apply hr.invariant
  · intro s hs
    rw [show s = p from hs]
    exact create_countOk hp
  · intro s e t _ hs _ ht
    exact step_countOk hs ht

theorem toInt_of_lt {x : UInt32} (h : x.toNat < 2 ^ 31) : toInt x = x.toNat := by
  unfold toInt
  rw [if_pos (by omega)]

theorem toInt_neg {x : UInt32} (h : 2 ^ 31 ≤ x.toNat) : toInt x < 0 := by
  have := x.toNat_lt
  unfold toInt
  rw [if_neg (by omega)]
  omega

theorem create_limits (hp : sstackThreadPoolCreate minThreads maxThreads linger = some p)
    (hmax : maxThreads.toNat < 2 ^ 31) : Limits p := by
  unfold sstackThreadPoolCreate at hp
  split at hp
  · cases hp
  · rename_i haccept
    cases hp
    have hpos : 1 ≤ maxThreads.toNat := by
      have := (not_or.mp haccept).2
      rw [UInt32.lt_iff_toNat_lt] at this
      exact Nat.le_of_not_lt this
    have hle : 1 ≤ toInt maxThreads := by
      rw [toInt_of_lt hmax]
      omega
    constructor
    · exact hle
    · exact le_trans zero_le_one hle
    · simp

theorem reach_limits (hp : sstackThreadPoolCreate minThreads maxThreads linger = some p)
    (hmax : maxThreads.toNat < 2 ^ 31) (hr : (poolSystem p).Reach G s) : Limits s := by
  apply hr.invariant
  · intro s hs
    rw [show s = p from hs]
    exact create_limits hp hmax
  · intro s e t hreach hs _ ht
    exact (step_limits (reach_countOk hp hreach) hs ht).2

theorem create_poolDestroy (hp : sstackThreadPoolCreate minThreads maxThreads linger = some p) :
    p.poolDestroy = false ∧ p.poolHead = 0 ∧ p.poolNthreads = 0 ∧
      p.poolMaximum = toInt maxThreads := by
  unfold sstackThreadPoolCreate at hp
  split at hp
  · cases hp
  · cases hp
    exact ⟨rfl, rfl, rfl, rfl⟩

theorem reach_served (hp : sstackThreadPoolCreate minThreads maxThreads linger = some p)
    (hmax : maxThreads.toNat < 2 ^ 31) (hr : (poolSystem p).Reach CreateSucceeds s) :
    s.poolDestroy = false ∧ Served s := by
  have hcreate := create_poolDestroy hp
  apply hr.invariant (I := fun s => s.poolDestroy = false ∧ Served s)
  · intro s hs
    rw [show s = p from hs]
    exact ⟨hcreate.1, .of_head hcreate.2.1⟩
  · intro s e t hreach hs he ht
    have hc := reach_countOk hp hreach
    have hl := reach_limits hp hmax hreach
    exact ⟨step_poolDestroy he.1 hs.1 ht, step_served hc hl hs.2 he.2 ht⟩

/-- The bounds and the liveness of a pool hold in all its states exactly when its number of threads
fits the `int` that keeps it. -/
theorem poolCounters_iff (hp : sstackThreadPoolCreate minThreads maxThreads linger = some p) :
    ((∀ s, (poolSystem p).Reach NotDestroyed s →
        0 ≤ s.poolIdle ∧ s.poolIdle + s.poolActive.length ≤ s.poolNthreads ∧
        s.poolNthreads ≤ s.poolMaximum ∧
        ∀ (w left : ℕ), s.workers[w]? = some (.timedOut left) → s.poolMinimum ≤ left) ∧
      ∀ s, (poolSystem p).Reach CreateSucceeds s → s.queued ≠ s.started →
        ∃ (w : ℕ) (st : Worker), s.workers[w]? = some st ∧ st.live = true ∧
          st.isAsleep = false) ↔
      maxThreads.toNat < 2 ^ 31 := by
  constructor
  · intro h
    by_contra hmax
    obtain ⟨-, -, hn, hm⟩ := create_poolDestroy hp
    have hle := (h.1 p (.init rfl)).2.2.1
    have hneg := toInt_neg (Nat.le_of_not_lt hmax)
    omega
  · intro hmax
    constructor
    · intro s hr
      have hc := reach_countOk hp hr
      have hl := reach_limits hp hmax hr
      have hsum := countP_add_countP_le (p := Worker.idle) (q := Worker.active) (r := Worker.live)
        (l := s.workers) (by intro st; cases st <;> simp [Worker.idle, Worker.live])
        (by intro st; cases st <;> simp [Worker.active, Worker.live])
        (by intro st; cases st <;> simp [Worker.idle, Worker.active])
      have hidle := hc.idle
      have hlength := hc.length
      have hnthreads := hc.nthreads
      refine ⟨by omega, by omega, hl.le_max, hl.timedOut⟩
    · intro s hr hne
      have hq := reach_queueOk hp hr
      obtain ⟨hdestroy, hserved⟩ := reach_served hp hmax hr
      apply hserved hdestroy
      rw [ne_eq, hq.head_eq_zero_iff]
      exact hne

end Runs

theorem poolCounters_iff_default :
    ∃ p, sstackThreadPoolCreate 4 128 30 = some p ∧
      (((∀ s, (poolSystem p).Reach NotDestroyed s →
          0 ≤ s.poolIdle ∧ s.poolIdle + s.poolActive.length ≤ s.poolNthreads ∧
          s.poolNthreads ≤ s.poolMaximum ∧
          ∀ (w left : ℕ), s.workers[w]? = some (.timedOut left) → s.poolMinimum ≤ left) ∧
        ∀ s, (poolSystem p).Reach CreateSucceeds s → s.queued ≠ s.started →
          ∃ (w : ℕ) (st : Worker), s.workers[w]? = some st ∧ st.live = true ∧
            st.isAsleep = false) ↔
        (128 : UInt32).toNat < 2 ^ 31) := by
  have hp : ∃ p, sstackThreadPoolCreate 4 128 30 = some p := ⟨_, rfl⟩
  obtain ⟨p, hp⟩ := hp
  exact ⟨p, hp, poolCounters_iff hp⟩

/-- 2147483648 threads, kept as a negative number: the queued job never gets a worker. -/
theorem poolCounters_overflow :
    ∃ p s, sstackThreadPoolCreate 0 2147483648 0 = some p ∧
      (poolSystem p).Reach CreateSucceeds s ∧ ¬ s.poolNthreads ≤ s.poolMaximum ∧
      s.queued ≠ s.started ∧
      ¬ ∃ (w : ℕ) (st : Worker), s.workers[w]? = some st ∧ st.live = true ∧
        st.isAsleep = false := by
  have hrun : ∃ p s, sstackThreadPoolCreate 0 2147483648 0 = some p ∧
      (poolSystem p).run CreateSucceeds p [.queue 16 1 5 true none] = some s ∧
      s.poolNthreads = 0 ∧ s.poolMaximum = -2147483648 ∧ s.queued = [⟨16, 1, 5⟩] ∧
      s.started = [] ∧ s.workers = [] := ⟨_, _, rfl, rfl, rfl, rfl, rfl, rfl, rfl⟩
  obtain ⟨p, s, hp, hs, hn, hm, hqueued, hstarted, hworkers⟩ := hrun
  have hreach : (poolSystem p).Reach CreateSucceeds s := .run (.init rfl) hs
  refine ⟨p, s, hp, hreach, ?_, ?_, ?_⟩
  · rw [hn, hm]
    decide
  · rw [hqueued, hstarted]
    decide
  · simp [hworkers]

end SeamlessStack.ThreadPool

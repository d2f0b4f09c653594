import SeamlessStack.ThreadPool.Served

/-! The caller of `sstack_thread_pool_destroy`. Workers take no more jobs, and `notify_waiters`
wakes nobody while a job is queued. -/
namespace SeamlessStack.ThreadPool

open Lib

/-- No call leaves a pool that is being destroyed with a queued job beside a running one. -/
def DestroySafe (s : Pool) : Event → Prop
  | .destroy => s.poolHead = 0 ∨ s.poolActive = []
  | .queue .. => s.poolDestroy = false ∨ s.poolActive = []
  | _ => True

instance (s : Pool) : ∀ e, Decidable (DestroySafe s e)
  | .destroy => inferInstanceAs (Decidable (s.poolHead = 0 ∨ s.poolActive = []))
  | .queue .. => inferInstanceAs (Decidable (s.poolDestroy = false ∨ s.poolActive = []))
  | .work .. | .jobReturn .. | .jobExit .. | .timeout _ | .spurious _ | .wait _ | .waitWork _
  | .waitSpurious _ | .destroyWork | .destroySpurious => inferInstanceAs (Decidable True)

structure DestroyOk (s : Pool) : Prop where
  clear : s.poolDestroy = true → s.poolHead = 0 ∨ s.poolActive = []
  called : s.destroyer ≠ .notCalled → s.poolDestroy = true
  waiting : s.destroyer = .waitAsleep → s.poolWait = true ∧ s.poolActive ≠ []
  busy : s.destroyer = .busyAsleep → s.poolNthreads ≠ 0

theorem DestroyOk.congr {s t : Pool} (h : DestroyOk s) (hd : t.poolDestroy = s.poolDestroy)
    (hhead : t.poolHead = s.poolHead) (hactive : t.poolActive = s.poolActive)
    (hcaller : t.destroyer = s.destroyer) (hwait : s.poolWait = true → t.poolWait = true)
    (hn : t.poolNthreads = s.poolNthreads) : DestroyOk t := by
  constructor
  · rw [hd, hhead, hactive]
    exact h.clear
  · rw [hcaller, hd]
    exact h.called
  · rw [hcaller, hactive]
    intro hw
    exact ⟨hwait (h.waiting hw).1, (h.waiting hw).2⟩
  · rw [hcaller, hn]
    exact h.busy

theorem DestroyOk.of_not_destroy {s t : Pool} (h : DestroyOk s) (hd : s.poolDestroy = false)
    (hd' : t.poolDestroy = s.poolDestroy) (hcaller : t.destroyer = s.destroyer) :
    DestroyOk t := by
  have hnot : t.destroyer = .notCalled := by
    rw [hcaller]
    by_contra hne
    exact absurd ((h.called hne).symm.trans hd) (by decide)
  constructor
  · rw [hd', hd]
    intro hfalse
    cases hfalse
  · intro hne
    exact absurd hnot hne
  · rw [hnot]
    intro hfalse
    cases hfalse
  · rw [hnot]
    intro hfalse
    cases hfalse

theorem DestroyOk.createWorker {s : Pool} (h : DestroyOk s) (hc : CountOk s) :
    DestroyOk s.createWorker := by
  have hpos : s.createWorker.poolNthreads ≠ 0 := by
    have := hc.nthreads
    show s.poolNthreads + 1 ≠ 0
    omega
  exact ⟨h.clear, h.called, h.waiting, fun _ => hpos⟩

theorem DestroyOk.workerCleanup {s : Pool} (h : DestroyOk s) (w : ℕ) (ok : Bool) :
    DestroyOk (s.workerCleanup w ok) := by
  obtain ⟨hd, hn, ht⟩ | ⟨hd, -, ht⟩ | ⟨hn, -, ht⟩ := workerCleanup_cases s w ok
  · rw [ht]
    constructor
    · exact h.clear
    · intro _
      exact hd
    · dsimp only
      split_ifs with hb
      · intro hfalse
        cases hfalse
      · exact h.waiting
    · dsimp only
      split_ifs with hb
      · intro hfalse
        cases hfalse
      · intro heq
        exact absurd heq hb
  · rw [ht]
    exact h.of_not_destroy hd rfl rfl
  · rw [ht]
    refine ⟨h.clear, h.called, h.waiting, ?_⟩
    intro hb
    exact hn (h.called (by rw [show s.destroyer = .busyAsleep from hb]; decide))

/-- With an empty queue `notify_waiters` wakes the caller as soon as no job runs. -/
theorem destroyOk_notifyWaiters {s : Pool}
    (hclear : s.poolDestroy = true → s.poolHead = 0 ∨ s.poolActive = [])
    (hcalled : s.destroyer ≠ .notCalled → s.poolDestroy = true)
    (hwaiting : s.destroyer = .waitAsleep → s.poolWait = true ∧ s.poolHead = 0)
    (hbusy : s.destroyer = .busyAsleep → s.poolNthreads ≠ 0) : DestroyOk s.notifyWaiters := by
  unfold Pool.notifyWaiters
  split
  · constructor
    · exact hclear
    · dsimp only
      split_ifs with hw
      · intro _
        apply hcalled
        rw [hw]
        decide
      · exact hcalled
    · dsimp only
      split_ifs with hw
      · intro hfalse
        cases hfalse
      · intro heq
        exact absurd heq hw
    · dsimp only
      split_ifs with hw
      · intro hfalse
        cases hfalse
      · exact hbusy
  · rename_i hmore
    refine ⟨hclear, hcalled, ?_, hbusy⟩
    intro hw
    obtain ⟨hwait, hhead⟩ := hwaiting hw
    exact ⟨hwait, fun hnil => hmore ⟨hhead, hnil⟩⟩

theorem DestroyOk.head_of_waiting {s : Pool} (h : DestroyOk s) (hw : s.destroyer = .waitAsleep) :
    s.poolWait = true ∧ s.poolHead = 0 := by
  obtain ⟨hwait, hne⟩ := h.waiting hw
  have hd := h.called (by rw [hw]; decide)
  exact ⟨hwait, (h.clear hd).resolve_right hne⟩

theorem DestroyOk.jobCleanup {s : Pool} (h : DestroyOk s) (w : ℕ) : DestroyOk (s.jobCleanup w) := by
  have hclear : s.poolDestroy = true → s.poolHead = 0 ∨ (s.leaveActive w).poolActive = [] := by
    intro hd
    obtain hhead | hnil := h.clear hd
    · exact Or.inl hhead
    · right
      show s.poolActive.erase w = []
      rw [hnil]
      rfl
  unfold Pool.jobCleanup
  dsimp only
  split
  · exact destroyOk_notifyWaiters hclear h.called h.head_of_waiting h.busy
  · rename_i hwait
    refine ⟨hclear, h.called, ?_, h.busy⟩
    intro hw
    exact absurd (h.waiting hw).1 hwait

theorem destroyOk_busyRound {s : Pool} (hclear : s.poolDestroy = true → s.poolHead = 0 ∨
    s.poolActive = []) (hd : s.poolDestroy = true) : DestroyOk s.destroyBusyRound := by
  unfold Pool.destroyBusyRound
  constructor
  · exact hclear
  · intro _
    exact hd
  · dsimp only
    split_ifs <;> simp
  · dsimp only
    split_ifs with hn
    · intro _
      exact hn
    · simp

theorem destroyOk_waitRound {s : Pool} (hclear : s.poolDestroy = true → s.poolHead = 0 ∨
    s.poolActive = []) (hd : s.poolDestroy = true) : DestroyOk s.destroyWaitRound := by
  unfold Pool.destroyWaitRound
  split
  · rename_i hactive
    constructor
    · exact hclear
    · intro _
      exact hd
    · intro _
      exact ⟨rfl, hactive⟩
    · intro hfalse
      cases hfalse
  · exact destroyOk_busyRound hclear hd

theorem DestroyOk.act {ok : Bool} {s t : Pool} (h : DestroyOk s) (hc : CountOk s)
    (ha : Act ok s t) : DestroyOk t := by
  cases ha with
  | wake _ _ => exact h.congr rfl rfl rfl rfl id rfl
  | create _ => exact h.createWorker hc
  | enterIdle _ => exact h.congr rfl rfl rfl rfl id rfl
  | notify => exact destroyOk_notifyWaiters h.clear h.called h.head_of_waiting h.busy
  | sleep _ _ _ | leaveIdle _ => exact h.congr rfl rfl rfl rfl id rfl
  | takeJob _ _ hd => exact h.of_not_destroy hd rfl rfl
  | cleanup _ => exact h.workerCleanup _ ok
  | timeoutExit _ _ _ _ => exact (h.workerCleanup _ ok).congr rfl rfl rfl rfl id rfl
  | jobCleanup _ => exact h.jobCleanup _
  | waitRound n =>
    unfold Pool.waitRound
    split
    · exact h.congr rfl rfl rfl rfl (fun _ => rfl) rfl
    · exact h.congr rfl rfl rfl rfl id rfl
  | waiterWoken n => exact h.congr rfl rfl rfl rfl id rfl
  | destroyWaitRound hw => exact destroyOk_waitRound h.clear (h.called (by rw [hw]; decide))
  | destroyBusyRound hb => exact destroyOk_busyRound h.clear (h.called (by rw [hb]; decide))
  | destroyWaitWoken hw =>
    have hd := h.called (by rw [hw]; decide)
    exact ⟨h.clear, fun _ => hd, by simp, by simp⟩
  | destroyBusyWoken hb =>
    have hd := h.called (by rw [hb]; decide)
    exact ⟨h.clear, fun _ => hd, by simp, by simp⟩

theorem DestroyOk.append {s q : Pool} {a func arg : ℕ} (h : DestroyOk s)
    (hsafe : s.poolDestroy = false ∨ s.poolActive = []) (hq : s.append a func arg = some q) :
    DestroyOk q := by
  have hfields : q.poolDestroy = s.poolDestroy ∧ q.poolActive = s.poolActive ∧
      q.destroyer = s.destroyer ∧ q.poolWait = s.poolWait ∧ q.poolNthreads = s.poolNthreads := by
    unfold Pool.append at hq
    dsimp only at hq
    split_ifs at hq <;> cases hq <;> exact ⟨rfl, rfl, rfl, rfl, rfl⟩
  obtain ⟨hd, hactive, hcaller, hwait, hn⟩ := hfields
  obtain hnot | hnil := hsafe
  · exact h.of_not_destroy hnot hd hcaller
  · constructor
    · intro _
      rw [hactive]
      exact Or.inr hnil
    · rw [hcaller, hd]
      exact h.called
    · rw [hcaller, hactive, hwait]
      exact h.waiting
    · rw [hcaller, hn]
      exact h.busy

theorem step_destroyOk {s t : Pool} {e : Event} (hc : CountOk s) (hs : DestroyOk s)
    (hsafe : DestroySafe s e) (h : step s e = some t) : DestroyOk t := by
  have hacts : ∀ ok s t, CountOk s ∧ DestroyOk s → Act ok s t → CountOk t ∧ DestroyOk t := by
    intro ok s t hs ha
    exact ⟨hs.1.act ha, hs.2.act hs.1 ha⟩
  obtain ⟨a, func, arg, ok, target, q, rfl, -, -, hq, ht⟩ | ⟨rfl, -, rfl⟩ | hchain := step_cases h
  · exact (acts_preserve (hacts ok) ⟨hc.append hq, hs.append hsafe hq⟩ (offer_acts ht)).2
  · exact destroyOk_waitRound (fun _ => hsafe) rfl
  · exact (acts_preserve (hacts _) ⟨hc, hs⟩ hchain).2

section Runs

variable {minThreads maxThreads linger : UInt32} {p s : Pool}

theorem create_destroyOk (hp : sstackThreadPoolCreate minThreads maxThreads linger = some p) :
    DestroyOk p := by
  unfold sstackThreadPoolCreate at hp
  split at hp
  · cases hp
  · cases hp
    constructor <;> simp

theorem reach_destroyOk (hp : sstackThreadPoolCreate minThreads maxThreads linger = some p)
    (hr : (poolSystem p).Reach DestroySafe s) : DestroyOk s := by
  apply hr.invariant
  · intro s hs
    rw [show s = p from hs]
    exact create_destroyOk hp
  · intro s e t hreach hs hsafe ht
    exact step_destroyOk (reach_countOk hp hreach) hs hsafe ht

/-- In a run with no queued job beside a running one once the pool is being destroyed, the
destroying thread does not sleep on after the last worker. -/
theorem poolDestroy_woken (hp : sstackThreadPoolCreate minThreads maxThreads linger = some p)
    (hr : (poolSystem p).Reach DestroySafe s) :
    ¬ ((s.destroyer = .waitAsleep ∨ s.destroyer = .busyAsleep) ∧ s.poolActive = [] ∧
      ∀ (w : ℕ) (st : Worker), s.workers[w]? = some st → st.live = false) := by
  have hok := reach_destroyOk hp hr
  intro hstuck
  obtain ⟨hasleep, hactive, hgone⟩ := hstuck
  obtain hw | hb := hasleep
  · exact (hok.waiting hw).2 hactive
  · apply hok.busy hb
    rw [(reach_countOk hp hr).nthreads]
    have hnone : s.workers.countP Worker.live = 0 := by
      rw [List.countP_eq_zero]
      intro st hst
      obtain ⟨w, hw⟩ := List.mem_iff_getElem?.mp hst
      rw [hgone w st hw]
      decide
    rw [hnone]
    rfl

end Runs

/-- The pool is destroyed while its only job runs, and the job ends. -/
def destroyRunning : List Event :=
  [.queue 16 1 5 true none, .work 0 true, .destroy, .jobReturn 0 true]

theorem poolDestroy_woken_one :
    ∃ p s, sstackThreadPoolCreate 1 1 0 = some p ∧
      (poolSystem p).run DestroySafe p destroyRunning = some s ∧ s.destroyer = .waitWoken ∧
      ¬ ((s.destroyer = .waitAsleep ∨ s.destroyer = .busyAsleep) ∧ s.poolActive = [] ∧
        ∀ (w : ℕ) (st : Worker), s.workers[w]? = some st → st.live = false) := by
  have hrun : ∃ p s, sstackThreadPoolCreate 1 1 0 = some p ∧
      (poolSystem p).run DestroySafe p destroyRunning = some s ∧
      s.destroyer = .waitWoken := ⟨_, _, rfl, rfl, rfl⟩
  obtain ⟨p, s, hp, hs, hwoken⟩ := hrun
  exact ⟨p, s, hp, hs, hwoken, poolDestroy_woken hp (.run (.init rfl) hs)⟩

def destroyBetween : List Event :=
  [.queue 16 1 5 true none, .work 0 true, .queue 32 2 6 true none, .destroy, .jobReturn 0 true]

theorem poolDestroy_stuck :
    ∃ p s, sstackThreadPoolCreate 1 1 0 = some p ∧
      (poolSystem p).Reach System.AnyStep s ∧ s.destroyer = .waitAsleep ∧ s.poolActive = [] ∧
      ∀ (w : ℕ) (st : Worker), s.workers[w]? = some st → st.live = false := by
  have hrun : ∃ p s, sstackThreadPoolCreate 1 1 0 = some p ∧
      (poolSystem p).run System.AnyStep p destroyBetween = some s ∧ s.destroyer = .waitAsleep ∧
      s.poolActive = [] ∧ s.workers = [.exited] := ⟨_, _, rfl, rfl, rfl, rfl, rfl⟩
  obtain ⟨p, s, hp, hs, hasleep, hactive, hworkers⟩ := hrun
  have hreach : (poolSystem p).Reach System.AnyStep s := .run (.init rfl) hs
  refine ⟨p, s, hp, hreach, hasleep, hactive, ?_⟩
  intro w st hw
  have hmem := List.mem_of_getElem? hw
  rw [hworkers, List.mem_singleton] at hmem
  rw [hmem]
  rfl

end SeamlessStack.ThreadPool

import SeamlessStack.ThreadPool.Served

/-! The flag `POOL_WAIT` is set whenever some caller sleeps, so the worker that empties the pool
wakes them all. -/
namespace SeamlessStack.ThreadPool

open Lib

def Pool.Busy (s : Pool) : Prop := s.poolHead ≠ 0 ∨ s.poolActive ≠ []

def WaitOk (s : Pool) : Prop := ∀ n, s.waiters n = .asleep → s.poolWait = true ∧ s.Busy

variable {s t : Pool}

theorem WaitOk.congr (h : WaitOk s) (hwaiters : t.waiters = s.waiters)
    (hwait : t.poolWait = s.poolWait) (hhead : t.poolHead = s.poolHead)
    (hactive : t.poolActive = s.poolActive) : WaitOk t := by
  unfold WaitOk Pool.Busy
  rw [hwaiters, hwait, hhead, hactive]
  exact h

theorem WaitOk.of_busy (h : WaitOk s) (hwaiters : t.waiters = s.waiters)
    (hwait : t.poolWait = s.poolWait) (hbusy : t.Busy) : WaitOk t := by
  intro n hn
  rw [hwaiters] at hn
  rw [hwait]
  exact ⟨(h n hn).1, hbusy⟩

theorem waitOk_of_awake (h : ∀ n, s.waiters n ≠ .asleep) : WaitOk s := by
  intro n hn
  exact absurd hn (h n)

theorem waitOk_notifyWaiters (h : ∀ n, s.waiters n = .asleep → s.poolWait = true) :
    WaitOk s.notifyWaiters := by
  unfold Pool.notifyWaiters
  split
  · apply waitOk_of_awake
    intro n
    dsimp only
    split_ifs with hn
    · simp
    · exact hn
  · rename_i hbusy
    intro n hn
    refine ⟨h n hn, ?_⟩
    rw [Decidable.not_and_iff_or_not] at hbusy
    exact hbusy

theorem WaitOk.workerCleanup (h : WaitOk s) (w : ℕ) (ok : Bool) :
    WaitOk (s.workerCleanup w ok) := by
  obtain ⟨-, -, ht⟩ | ⟨-, -, ht⟩ | ⟨-, -, ht⟩ := workerCleanup_cases s w ok
  · rw [ht]
    exact h.congr rfl rfl rfl rfl
  · rw [ht]
    exact h.congr rfl rfl rfl rfl
  · rw [ht]
    exact h.congr rfl rfl rfl rfl

theorem WaitOk.jobCleanup (h : WaitOk s) (w : ℕ) : WaitOk (s.jobCleanup w) := by
  unfold Pool.jobCleanup
  dsimp only
  split
  · apply waitOk_notifyWaiters
    intro n hn
    exact (h n hn).1
  · rename_i hwait
    apply waitOk_of_awake
    intro n hn
    exact hwait (h n hn).1

theorem WaitOk.waitRound (h : WaitOk s) (n : ℕ) : WaitOk (s.waitRound n) := by
  unfold Pool.waitRound
  split
  · rename_i hbusy
    intro m _
    exact ⟨rfl, hbusy⟩
  · rename_i hidle
    apply waitOk_of_awake
    intro m hm
    by_cases hmn : m = n
    · simp [hmn] at hm
    · simp only [Function.update_of_ne hmn] at hm
      exact hidle (h m hm).2

theorem WaitOk.destroyWaitRound (h : WaitOk s) : WaitOk s.destroyWaitRound := by
  unfold Pool.destroyWaitRound
  split
  · rename_i hactive
    intro n _
    exact ⟨rfl, Or.inr hactive⟩
  · exact h.congr rfl rfl rfl rfl

theorem WaitOk.act {ok : Bool} (h : WaitOk s) (ha : Act ok s t) : WaitOk t := by
  cases ha with
  | wake _ _ | create _ | enterIdle _ => exact h.congr rfl rfl rfl rfl
  | notify => exact waitOk_notifyWaiters fun n hn => (h n hn).1
  | sleep _ _ _ | leaveIdle _ => exact h.congr rfl rfl rfl rfl
  | @takeJob w _ _ _ => exact h.of_busy rfl rfl (Or.inr (List.cons_ne_nil w s.poolActive))
  | cleanup _ => exact h.workerCleanup _ ok
  | timeoutExit _ _ _ _ => exact (h.workerCleanup _ ok).congr rfl rfl rfl rfl
  | jobCleanup _ => exact h.jobCleanup _
  | waitRound n => exact h.waitRound n
  | waiterWoken n =>
    intro m hm
    by_cases hmn : m = n
    · simp [hmn] at hm
    · simp only [Function.update_of_ne hmn] at hm
      exact h m hm
  | destroyWaitRound _ => exact h.destroyWaitRound
  | destroyBusyRound _ | destroyWaitWoken _ | destroyBusyWoken _ => exact h.congr rfl rfl rfl rfl

theorem WaitOk.append {q : Pool} {a func arg : ℕ} (h : WaitOk s) (ha : a ≠ 0)
    (hq : s.append a func arg = some q) : WaitOk q := by
  unfold Pool.append at hq
  dsimp only at hq
  split_ifs at hq with hhead htail
  · cases hq
    exact h.of_busy rfl rfl (Or.inl ha)
  · cases hq
    exact h.of_busy rfl rfl (Or.inl hhead)

theorem step_waitOk {e : Event} (hs : WaitOk s) (h : step s e = some t) :
    WaitOk t := by
  apply step_preserves (I := WaitOk) _ _ _ hs h
  · intro ok s t hs ha
    exact hs.act ha
  · intro s a func arg q hs ha _ hq
    exact hs.append ha hq
  · intro s hs
    exact WaitOk.destroyWaitRound (hs.congr rfl rfl rfl rfl)

variable {minThreads maxThreads linger : UInt32} {p : Pool}

theorem create_waitOk (hp : sstackThreadPoolCreate minThreads maxThreads linger = some p) :
    WaitOk p := by
  unfold sstackThreadPoolCreate at hp
  split at hp
  · cases hp
  · cases hp
    apply waitOk_of_awake
    simp

theorem reach_waitOk {G : Pool → Event → Prop}
    (hp : sstackThreadPoolCreate minThreads maxThreads linger = some p)
    (hr : (poolSystem p).Reach G s) : WaitOk s := by
  apply hr.invariant
  · intro s hs
    rw [show s = p from hs]
    exact create_waitOk hp
  · intro s e t _ hs _ ht
    exact step_waitOk hs ht

theorem waitRound_returned {n : ℕ} (h : (s.waitRound n).waiters n = .returned) :
    (s.waitRound n).poolHead = 0 ∧ (s.waitRound n).poolActive = [] := by
  unfold Pool.waitRound at h ⊢
  split at h
  · simp at h
  · rename_i hidle
    rw [if_neg hidle]
    obtain ⟨hhead, hactive⟩ := not_or.mp hidle
    exact ⟨not_not.mp hhead, not_not.mp hactive⟩

/-- A call of `sstack_thread_pool_wait` that returns does so with no job queued and none running,
and no caller sleeps on in such a state. -/
theorem poolWait_empty (hp : sstackThreadPoolCreate minThreads maxThreads linger = some p)
    (hr : (poolSystem p).Reach NotDestroyed s) :
    (∀ n e t, e = .wait n ∨ e = .waitWork n → step s e = some t → t.waiters n = .returned →
      t.queued = t.started ∧ t.poolActive = []) ∧
    ¬ ∃ n, s.waiters n = .asleep ∧ s.queued = s.started ∧ s.poolActive = [] := by
  have hq := reach_queueOk hp hr
  constructor
  · intro n e t he ht hret
    have hround : t = s.waitRound n := by
      unfold step at ht
      split at ht
      · cases ht
      obtain rfl | rfl := he
      · dsimp only at ht
        split at ht <;> cases ht
        rfl
      · dsimp only at ht
        split at ht <;> cases ht
        rfl
    have hqt := step_queueOk hq ht
    rw [hround] at hret
    obtain ⟨hhead, hactive⟩ := waitRound_returned hret
    rw [← hround] at hhead hactive
    exact ⟨hqt.head_eq_zero_iff.mp hhead, hactive⟩
  · intro hex
    obtain ⟨n, hasleep, hempty, hactive⟩ := hex
    obtain hhead | hne := (reach_waitOk hp hr n hasleep).2
    · exact hhead (hq.head_eq_zero_iff.mpr hempty)
    · exact hne hactive

def twoWaiters : List Event := [.queue 16 1 5 true none, .wait 0, .work 0 true, .wait 1]

theorem poolWait_empty_two :
    ∃ p s, sstackThreadPoolCreate 1 1 0 = some p ∧
      (poolSystem p).run NotDestroyed p twoWaiters = some s ∧
      s.waiters 0 = .asleep ∧ s.waiters 1 = .asleep ∧
      (∀ n e t, e = .wait n ∨ e = .waitWork n → step s e = some t → t.waiters n = .returned →
        t.queued = t.started ∧ t.poolActive = []) ∧
      ¬ ∃ n, s.waiters n = .asleep ∧ s.queued = s.started ∧ s.poolActive = [] := by
  have hrun : ∃ p s, sstackThreadPoolCreate 1 1 0 = some p ∧
      (poolSystem p).run NotDestroyed p twoWaiters = some s ∧ s.waiters 0 = .asleep ∧
      s.waiters 1 = .asleep := ⟨_, _, rfl, rfl, rfl, rfl⟩
  obtain ⟨p, s, hp, hs, h0, h1⟩ := hrun
  have hreach : (poolSystem p).Reach NotDestroyed s := .run (.init rfl) hs
  exact ⟨p, s, hp, hs, h0, h1, poolWait_empty hp hreach⟩

end SeamlessStack.ThreadPool

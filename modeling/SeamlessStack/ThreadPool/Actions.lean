import Mathlib.Logic.Relation
import SeamlessStack.ThreadPool.Pool

/-! What a section under `pool_mutex` can do to the pool, as a chain of actions. An invariant is
proved once for each action. -/
namespace SeamlessStack.ThreadPool

open Relation

/-- An action that neither destroys nor appends; `ok` is whether `create_worker` succeeds. -/
inductive Act (ok : Bool) : Pool → Pool → Prop
  | wake {s : Pool} {w : ℕ} {timed : Bool} (timedout : Bool)
      (hw : s.workers[w]? = some (.asleep timed)) : Act ok s (s.setWorker w (.woken timedout))
  | create {s : Pool} (h : s.poolNthreads < s.poolMaximum) : Act ok s s.createWorker
  | enterIdle {s : Pool} {w : ℕ} (hw : s.workers[w]? = some .looping) : Act ok s (s.enterIdle w)
  | notify (s : Pool) : Act ok s s.notifyWaiters
  | sleep {s : Pool} {w : ℕ} {timedout : Bool} (timed : Bool)
      (hw : s.workers[w]? = some (.woken timedout)) (hhead : s.poolHead = 0) :
      Act ok s (s.setWorker w (.asleep timed))
  | leaveIdle {s : Pool} {w : ℕ} {timedout : Bool}
      (hw : s.workers[w]? = some (.woken timedout)) : Act ok s (s.leaveIdle w)
  | takeJob {s : Pool} {w : ℕ} (hw : s.workers[w]? = some .looping) (hhead : s.poolHead ≠ 0)
      (hdestroy : s.poolDestroy = false) : Act ok s (s.takeJob w)
  | cleanup {s : Pool} {w : ℕ} (hw : s.workers[w]? = some .looping) :
      Act ok s (s.workerCleanup w ok)
  | timeoutExit {s : Pool} {w : ℕ} (hw : s.workers[w]? = some .looping)
      (hhead : s.poolHead = 0) (hdestroy : s.poolDestroy = false)
      (hmin : s.poolMinimum < s.poolNthreads) : Act ok s (s.timeoutExit w ok)
  | jobCleanup {s : Pool} {w job : ℕ} (hw : s.workers[w]? = some (.running job)) :
      Act ok s (s.jobCleanup w)
  | waitRound (s : Pool) (n : ℕ) : Act ok s (s.waitRound n)
  | waiterWoken (s : Pool) (n : ℕ) :
      Act ok s { s with waiters := Function.update s.waiters n .woken }
  | destroyWaitRound {s : Pool} (h : s.destroyer = .waitWoken) : Act ok s s.destroyWaitRound
  | destroyBusyRound {s : Pool} (h : s.destroyer = .busyWoken) : Act ok s s.destroyBusyRound
  | destroyWaitWoken {s : Pool} (h : s.destroyer = .waitAsleep) :
      Act ok s { s with destroyer := .waitWoken }
  | destroyBusyWoken {s : Pool} (h : s.destroyer = .busyAsleep) :
      Act ok s { s with destroyer := .busyWoken }

theorem acts_preserve {I : Pool → Prop} {ok : Bool} (hact : ∀ s t, I s → Act ok s t → I t)
    {s t : Pool} (hs : I s) (h : ReflTransGen (Act ok) s t) : I t := by
  induction h with
  | refl => exact hs
  | tail _ hlast ih => exact hact _ _ ih hlast

section Workers

variable {s : Pool} {w : ℕ}

@[simp] theorem notifyWaiters_workers (s : Pool) : s.notifyWaiters.workers = s.workers := by
  unfold Pool.notifyWaiters
  split <;> rfl

@[simp] theorem jobCleanup_workers (s : Pool) (w : ℕ) :
    (s.jobCleanup w).workers = s.workers.set w .looping := by
  unfold Pool.jobCleanup
  dsimp only
  split
  · rw [notifyWaiters_workers]
    rfl
  · rfl

theorem workers_set_self {st : Worker} (hw : s.workers[w]? = some st) (new : Worker) :
    (s.workers.set w new)[w]? = some new := by
  have hlt := (List.getElem?_eq_some_iff.mp hw).1
  simp [hlt]

theorem jobCleanup_self {st : Worker} (hw : s.workers[w]? = some st) :
    (s.jobCleanup w).workers[w]? = some .looping := by
  rw [jobCleanup_workers]
  exact workers_set_self hw _

/-- The destroying thread is woken, a new worker is created, or nothing else happens. -/
theorem workerCleanup_cases (s : Pool) (w : ℕ) (ok : Bool) :
    (s.poolDestroy = true ∧ s.poolNthreads - 1 = 0 ∧ s.workerCleanup w ok =
      { s.exitWorker w with
        destroyer := if s.destroyer = .busyAsleep then .busyWoken else s.destroyer }) ∨
    (s.poolDestroy = false ∧ s.poolNthreads - 1 < s.poolMaximum ∧
      s.workerCleanup w ok = (s.exitWorker w).createWorker) ∨
    ((s.poolDestroy = true → s.poolNthreads - 1 ≠ 0) ∧
      (s.poolDestroy = false → s.poolHead ≠ 0 → s.poolNthreads - 1 < s.poolMaximum → ok = false) ∧
      s.workerCleanup w ok = s.exitWorker w) := by
  unfold Pool.workerCleanup
  dsimp only
  cases hd : s.poolDestroy with
  | true =>
    rw [if_pos (show (s.exitWorker w).poolDestroy = true from hd)]
    by_cases hn : s.poolNthreads - 1 = 0
    · left
      exact ⟨rfl, hn, if_pos hn⟩
    · right; right
      exact ⟨fun _ => hn, by simp, if_neg hn⟩
  | false =>
    rw [if_neg (show ¬ (s.exitWorker w).poolDestroy = true by simp [Pool.exitWorker, hd])]
    by_cases hc : s.poolHead ≠ 0 ∧ s.poolNthreads - 1 < s.poolMaximum ∧ ok
    · right; left
      exact ⟨rfl, hc.2.1, if_pos hc⟩
    · right; right
      refine ⟨by simp, ?_, if_neg hc⟩
      intro _ hhead hlt
      exact Bool.eq_false_iff.mpr fun hok => hc ⟨hhead, hlt, hok⟩

end Workers

section Chains

variable {ok : Bool} {w : ℕ} {again : Pool → Option Pool} {s t : Pool}

theorem afterWait_acts {timedout b : Bool}
    (hagain : ∀ s t, s.workers[w]? = some .looping → again s = some t →
      ReflTransGen (Act ok) s t)
    (hw : s.workers[w]? = some (.woken b)) (h : Pool.afterWait again w ok timedout s = some t) :
    ReflTransGen (Act ok) s t := by
  have hleave : Act ok s (s.leaveIdle w) := .leaveIdle hw
  have hloop : (s.leaveIdle w).workers[w]? = some .looping := workers_set_self hw _
  unfold Pool.afterWait at h
  dsimp only at h
  split at h
  · cases h
    exact .head hleave (.single (.cleanup hloop))
  rename_i hdestroy
  have hdestroy := Bool.eq_false_iff.mpr hdestroy
  split at h
  · rename_i hhead
    cases h
    exact .head hleave (.single (.takeJob hloop hhead hdestroy))
  rename_i hhead
  have hhead := not_not.mp hhead
  split at h
  · rename_i hmin
    cases h
    exact .head hleave (.single (.timeoutExit hloop hhead hdestroy hmin.2))
  · exact .head hleave (hagain _ _ hloop h)

theorem waitLoop_acts {b : Bool}
    (hagain : ∀ s t, s.workers[w]? = some .looping → again s = some t →
      ReflTransGen (Act ok) s t)
    (hw : s.workers[w]? = some (.woken b)) (h : Pool.waitLoop again w ok s = some t) :
    ReflTransGen (Act ok) s t := by
  unfold Pool.waitLoop at h
  split at h
  · rename_i hhead
    split at h
    · cases h
      exact .single (.sleep false hw hhead.1)
    split at h
    · exact afterWait_acts hagain hw h
    · cases h
      exact .single (.sleep true hw hhead.1)
  · exact afterWait_acts hagain hw h

theorem workerLoop_acts (fuel : ℕ) : ∀ s t, s.workers[w]? = some .looping →
    Pool.workerLoop w ok fuel s = some t → ReflTransGen (Act ok) s t := by
  induction fuel with
  | zero =>
    intro s t _ h
    cases h
  | succ fuel ih =>
    intro s t hw h
    have henter : Act ok s (s.enterIdle w) := .enterIdle hw
    have hwoken : (s.enterIdle w).workers[w]? = some (.woken false) := workers_set_self hw _
    unfold Pool.workerLoop at h
    dsimp only at h
    split at h
    · have hn : (s.enterIdle w).notifyWaiters.workers[w]? = some (.woken false) := by
        rw [notifyWaiters_workers]
        exact hwoken
      exact .head henter (.head (.notify _) (waitLoop_acts ih hn h))
    · exact .head henter (waitLoop_acts ih hwoken h)

theorem offer_acts {target : Option ℕ} (h : s.offer ok target = some t) :
    ReflTransGen (Act ok) s t := by
  unfold Pool.offer at h
  split at h
  · unfold Pool.signalWork at h
    split at h
    · split at h
      · rename_i hw
        cases h
        exact .single (.wake false hw)
      · cases h
    · split at h
      · cases h
      · cases h
        exact .refl
  split at h
  · rename_i hn
    cases h
    exact .single (.create hn.1)
  · cases h
    exact .refl

end Chains

/-- A step appends a job and finds a worker, or starts to destroy, or is a chain of actions. -/
theorem step_cases {s t : Pool} {e : Event} (h : step s e = some t) :
    (∃ a func arg ok target q, e = .queue a func arg ok target ∧ a ≠ 0 ∧
    a ∉ s.queued.map Request.job ∧
      s.append a func arg = some q ∧ q.offer ok target = some t) ∨
    (e = .destroy ∧ s.destroyer = .notCalled ∧ t = s.sstackThreadPoolDestroy) ∨
    ReflTransGen (Act e.createOk) s t := by
  unfold step at h
  split at h
  · cases h
  cases e with
  | queue a func arg ok target =>
    left
    dsimp only [Pool.sstackThreadPoolQueue] at h
    split at h
    · cases h
    rename_i hnew
    obtain ⟨ha, hq⟩ := not_or.mp hnew
    obtain ⟨q, hq', ht⟩ := Option.bind_eq_some_iff.mp h
    exact ⟨a, func, arg, ok, target, q, rfl, ha, hq, hq', ht⟩
  | work w ok =>
    right; right
    dsimp only at h
    split at h
    · rename_i hw
      exact workerLoop_acts 2 s t hw h
    · rename_i hw
      exact waitLoop_acts (workerLoop_acts 2) hw h
    · rename_i hw
      exact afterWait_acts (workerLoop_acts 2) hw h
    · cases h
  | jobReturn w ok =>
    right; right
    dsimp only at h
    split at h
    · rename_i hw
      exact .head (.jobCleanup hw) (workerLoop_acts 2 _ t (jobCleanup_self hw) h)
    · cases h
  | jobExit w ok =>
    right; right
    dsimp only at h
    split at h
    · rename_i hw
      cases h
      exact .head (.jobCleanup hw) (.single (.cleanup (jobCleanup_self hw)))
    · cases h
  | timeout w =>
    right; right
    dsimp only at h
    split at h
    · rename_i hw
      cases h
      exact .single (.wake true hw)
    · cases h
  | spurious w =>
    right; right
    dsimp only at h
    split at h
    · rename_i hw
      cases h
      exact .single (.wake false hw)
    · cases h
  | wait n =>
    right; right
    dsimp only at h
    split at h
    · cases h
      exact .single (.waitRound s n)
    · cases h
  | waitWork n =>
    right; right
    dsimp only at h
    split at h
    · cases h
      exact .single (.waitRound s n)
    · cases h
  | waitSpurious n =>
    right; right
    dsimp only at h
    split at h
    · cases h
      exact .single (.waiterWoken s n)
    · cases h
  | destroy =>
    right; left
    dsimp only at h
    split at h
    · rename_i hd
      cases h
      exact ⟨rfl, hd, rfl⟩
    · cases h
  | destroyWork =>
    right; right
    dsimp only at h
    split at h
    · rename_i hd
      cases h
      exact .single (.destroyWaitRound hd)
    · rename_i hd
      cases h
      exact .single (.destroyBusyRound hd)
    · cases h
  | destroySpurious =>
    right; right
    dsimp only at h
    split at h
    · rename_i hd
      cases h
      exact .single (.destroyWaitWoken hd)
    · rename_i hd
      cases h
      exact .single (.destroyBusyWoken hd)
    · cases h

theorem step_preserves {I : Pool → Prop} (hact : ∀ ok s t, I s → Act ok s t → I t)
    (happend : ∀ s a func arg q, I s → a ≠ 0 → a ∉ s.queued.map Request.job →
      s.append a func arg = some q → I q)
    (hdestroy : ∀ s, I s → I s.sstackThreadPoolDestroy) {s t : Pool} {e : Event} (hs : I s)
    (h : step s e = some t) : I t := by
  obtain ⟨a, func, arg, ok, target, q, -, ha, hnew, hq, ht⟩ | ⟨-, -, rfl⟩ | hacts := step_cases h
  · exact acts_preserve (hact ok) (happend s a func arg q hs ha hnew hq) (offer_acts ht)
  · exact hdestroy s hs
  · exact acts_preserve (hact _) hs hacts

end SeamlessStack.ThreadPool

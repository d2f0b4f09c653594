import SeamlessStack.Lib.Count
import SeamlessStack.ThreadPool.Queue

/-! What `pool_nthreads`, `pool_idle` and `pool_active` say about the worker threads. -/
namespace SeamlessStack.ThreadPool

open Lib

structure CountOk (s : Pool) : Prop where
  nthreads : s.poolNthreads = s.workers.countP Worker.live
  idle : s.poolIdle = s.workers.countP Worker.idle
  length : s.poolActive.length = s.workers.countP Worker.active
  nodup : s.poolActive.Nodup
  mem : ∀ w, w ∈ s.poolActive ↔ ∃ st, s.workers[w]? = some st ∧ st.active = true

variable {s t : Pool}

theorem CountOk.congr (h : CountOk s) (hworkers : t.workers = s.workers)
    (hn : t.poolNthreads = s.poolNthreads) (hi : t.poolIdle = s.poolIdle)
    (hactive : t.poolActive = s.poolActive) : CountOk t := by
  constructor
  · rw [hn, hworkers, h.nthreads]
  · rw [hi, hworkers, h.idle]
  · rw [hactive, hworkers, h.length]
  · rw [hactive]
    exact h.nodup
  · rw [hactive, hworkers]
    exact h.mem

variable {w : ℕ}

theorem CountOk.mem_iff (h : CountOk s) {st : Worker}
    (hw : s.workers[w]? = some st) : w ∈ s.poolActive ↔ st.active = true := by
  rw [h.mem]
  simp [hw]

variable {new : Worker}

/-- The counters follow the move of one worker. -/
theorem CountOk.move (h : CountOk s) {old : Worker}
    (hw : s.workers[w]? = some old) (hworkers : t.workers = s.workers.set w new)
    (hn : t.poolNthreads + old.live.toNat = s.poolNthreads + new.live.toNat)
    (hi : t.poolIdle + old.idle.toNat = s.poolIdle + new.idle.toNat)
    (hactive : t.poolActive = (if new.active then [w] else []) ++ s.poolActive.erase w) :
    CountOk t := by
  have hlive := countP_set_toNat (p := Worker.live) (y := new) hw
  have hidle := countP_set_toNat (p := Worker.idle) (y := new) hw
  have hrunning := countP_set_toNat (p := Worker.active) (y := new) hw
  have hnthreads := h.nthreads
  have hpoolIdle := h.idle
  have hlength := h.length
  have hmem := h.mem_iff hw
  have herase := List.length_erase (a := w) (l := s.poolActive)
  constructor
  · rw [hworkers]
    omega
  · rw [hworkers]
    omega
  · rw [hworkers, hactive, List.length_append, herase]
    by_cases hold : old.active
    · have hpos := List.length_pos_of_mem (hmem.mpr hold)
      rw [if_pos (hmem.mpr hold)]
      rw [hold] at hrunning
      cases hnew : new.active <;> simp [hnew] at hrunning ⊢ <;> omega
    · rw [if_neg (mt hmem.mp hold)]
      rw [Bool.eq_false_iff.mpr hold] at hrunning
      cases hnew : new.active <;> simp [hnew] at hrunning ⊢ <;> omega
  · rw [hactive]
    cases new.active
    · simpa using h.nodup.erase w
    · simpa using ⟨h.nodup.not_mem_erase, h.nodup.erase w⟩
  · intro v
    rw [hactive, hworkers, List.mem_append, h.nodup.mem_erase_iff]
    by_cases hv : v = w
    · subst hv
      rw [workers_set_self hw]
      cases hnew : new.active <;> simp [hnew]
    · rw [List.getElem?_set_ne (Ne.symm hv), ← h.mem v]
      cases new.active <;> simp [hv]

theorem CountOk.move_idle (h : CountOk s) {old : Worker}
    (hw : s.workers[w]? = some old) (hworkers : t.workers = s.workers.set w new)
    (hn : t.poolNthreads + old.live.toNat = s.poolNthreads + new.live.toNat)
    (hi : t.poolIdle + old.idle.toNat = s.poolIdle + new.idle.toNat)
    (hold : old.active = false) (hnew : new.active = false)
    (hactive : t.poolActive = s.poolActive) : CountOk t := by
  apply h.move hw hworkers hn hi
  have hnot : w ∉ s.poolActive := by
    rw [h.mem_iff hw, hold]
    simp
  rw [hactive, hnew, List.erase_of_not_mem hnot]
  rfl

theorem CountOk.createWorker (h : CountOk s) : CountOk s.createWorker := by
  have hnthreads := h.nthreads
  have hidle := h.idle
  have hlength := h.length
  constructor
  · simp only [Pool.createWorker, List.countP_append, List.countP_singleton, Worker.live]
    push_cast
    omega
  · simp only [Pool.createWorker, List.countP_append, List.countP_singleton, Worker.idle]
    simpa using hidle
  · simp only [Pool.createWorker, List.countP_append, List.countP_singleton, Worker.active]
    simpa using hlength
  · exact h.nodup
  · intro w
    have hmem : w ∈ s.createWorker.poolActive ↔ w ∈ s.poolActive := Iff.rfl
    rw [hmem, h.mem]
    simp only [Pool.createWorker, List.getElem?_append]
    by_cases hlt : w < s.workers.length
    · rw [if_pos hlt]
    · rw [if_neg hlt, List.getElem?_eq_none (by omega)]
      rcases hk : w - s.workers.length with _ | k <;> simp [Worker.active]

theorem workerCleanup_self {st : Worker} (ok : Bool)
    (hw : s.workers[w]? = some st) : (s.workerCleanup w ok).workers[w]? = some .exited := by
  have hset := workers_set_self hw .exited
  have hlt := (List.getElem?_eq_some_iff.mp hset).1
  obtain ⟨-, -, ht⟩ | ⟨-, -, ht⟩ | ⟨-, -, ht⟩ := workerCleanup_cases s w ok
  · rw [ht]
    exact hset
  · rw [ht]
    exact (List.getElem?_append_left hlt).trans hset
  · rw [ht]
    exact hset

theorem CountOk.workerCleanup (h : CountOk s) (ok : Bool)
    (hw : s.workers[w]? = some .looping) : CountOk (s.workerCleanup w ok) := by
  have hexit : CountOk (s.exitWorker w) := by
    have hn : (s.exitWorker w).poolNthreads + Worker.looping.live.toNat =
        s.poolNthreads + Worker.exited.live.toNat := by
      simp [Pool.exitWorker, Worker.live]
    exact h.move_idle hw rfl hn rfl rfl rfl rfl
  obtain ⟨-, -, ht⟩ | ⟨-, -, ht⟩ | ⟨-, -, ht⟩ := workerCleanup_cases s w ok
  · rw [ht]
    exact hexit.congr rfl rfl rfl rfl
  · rw [ht]
    exact hexit.createWorker
  · rw [ht]
    exact hexit

theorem CountOk.notifyWaiters (h : CountOk s) : CountOk s.notifyWaiters := by
  unfold Pool.notifyWaiters
  split
  · exact h.congr rfl rfl rfl rfl
  · exact h

theorem CountOk.destroyWaitRound (h : CountOk s) : CountOk s.destroyWaitRound := by
  unfold Pool.destroyWaitRound
  split
  · exact h.congr rfl rfl rfl rfl
  · exact h.congr rfl rfl rfl rfl

theorem CountOk.act {ok : Bool} (h : CountOk s) (ha : Act ok s t) : CountOk t := by
  cases ha with
  | wake timedout hw => exact h.move_idle hw rfl rfl rfl rfl rfl rfl
  | create _ => exact h.createWorker
  | enterIdle hw => exact h.move_idle hw rfl rfl (by simp [Pool.enterIdle, Worker.idle]) rfl rfl rfl
  | notify => exact h.notifyWaiters
  | sleep timed hw _ => exact h.move_idle hw rfl rfl rfl rfl rfl rfl
  | leaveIdle hw => exact h.move_idle hw rfl rfl (by simp [Pool.leaveIdle, Worker.idle]) rfl rfl rfl
  | @takeJob w hw _ _ =>
    have hnot : w ∉ s.poolActive := by
      rw [h.mem_iff hw]
      simp [Worker.active]
    have hactive : (s.takeJob w).poolActive = [w] ++ s.poolActive.erase w := by
      rw [List.erase_of_not_mem hnot]
      rfl
    exact h.move hw rfl rfl rfl hactive
  | cleanup hw => exact h.workerCleanup ok hw
  | timeoutExit hw _ _ _ =>
    have hself := workerCleanup_self ok hw
    exact (h.workerCleanup ok hw).move_idle hself rfl rfl rfl rfl rfl rfl
  | @jobCleanup w _ hw =>
    have hlooping : CountOk (s.leaveActive w) :=
      h.move hw rfl rfl rfl rfl
    unfold Pool.jobCleanup
    dsimp only
    split
    · exact hlooping.notifyWaiters
    · exact hlooping
  | waitRound n =>
    unfold Pool.waitRound
    split
    · exact h.congr rfl rfl rfl rfl
    · exact h.congr rfl rfl rfl rfl
  | waiterWoken n => exact h.congr rfl rfl rfl rfl
  | destroyWaitRound _ => exact h.destroyWaitRound
  | destroyBusyRound _ | destroyWaitWoken _ | destroyBusyWoken _ => exact h.congr rfl rfl rfl rfl

theorem CountOk.append {q : Pool} {a func arg : ℕ} (h : CountOk s)
    (hq : s.append a func arg = some q) : CountOk q := by
  unfold Pool.append at hq
  dsimp only at hq
  split_ifs at hq <;> cases hq <;> exact h.congr rfl rfl rfl rfl

/-- Waking the sleepers moves no worker from one count to another. -/
theorem CountOk.wakeAll (h : CountOk s) :
    CountOk { s with poolDestroy := true, workers := s.workers.map Worker.wake } := by
  have hlive : Worker.live ∘ Worker.wake = Worker.live := by
    funext st
    cases st <;> rfl
  have hidle : Worker.idle ∘ Worker.wake = Worker.idle := by
    funext st
    cases st <;> rfl
  have hactive : Worker.active ∘ Worker.wake = Worker.active := by
    funext st
    cases st <;> rfl
  constructor
  · rw [List.countP_map, hlive]
    exact h.nthreads
  · rw [List.countP_map, hidle]
    exact h.idle
  · rw [List.countP_map, hactive]
    exact h.length
  · exact h.nodup
  · intro w
    rw [h.mem, List.getElem?_map]
    cases hw : s.workers[w]? with
    | none => simp
    | some st =>
      have : st.wake.active = st.active := congrFun hactive st
      simp [this]

theorem step_countOk {e : Event} (hs : CountOk s) (h : step s e = some t) :
    CountOk t := by
  apply step_preserves (I := CountOk) _ _ _ hs h
  · intro ok s t hs ha
    exact hs.act ha
  · intro s a func arg q hs _ _ hq
    exact hs.append hq
  · intro s hs
    exact hs.wakeAll.destroyWaitRound

/-- The bounds of a pool whose `pool_maximum` is positive. -/
structure Limits (s : Pool) : Prop where
  pos : 1 ≤ s.poolMaximum
  le_max : s.poolNthreads ≤ s.poolMaximum
  timedOut : ∀ (w left : ℕ), s.workers[w]? = some (.timedOut left) → s.poolMinimum ≤ left

theorem Limits.congr (h : Limits s) (hworkers : t.workers = s.workers)
    (hn : t.poolNthreads = s.poolNthreads) (hmin : t.poolMinimum = s.poolMinimum)
    (hmax : t.poolMaximum = s.poolMaximum) : Limits t := by
  constructor
  · rw [hmax]
    exact h.pos
  · rw [hn, hmax]
    exact h.le_max
  · rw [hworkers, hmin]
    exact h.timedOut

theorem Limits.move (h : Limits s) (hworkers : t.workers = s.workers.set w new)
    (hn : t.poolNthreads ≤ s.poolNthreads)
    (hmin : t.poolMinimum = s.poolMinimum) (hmax : t.poolMaximum = s.poolMaximum)
    (hnew : ∀ left, new = .timedOut left → s.poolMinimum ≤ left) : Limits t := by
  have hle := h.le_max
  constructor
  · rw [hmax]
    exact h.pos
  · rw [hmax]
    omega
  · intro v left hv
    rw [hmin]
    rw [hworkers, List.getElem?_set] at hv
    split_ifs at hv
    · exact hnew left (Option.some.inj hv)
    · exact h.timedOut v left hv

theorem Limits.createWorker (h : Limits s) (hlt : s.poolNthreads < s.poolMaximum) :
    Limits s.createWorker := by
  constructor
  · exact h.pos
  · exact hlt
  · intro v left hv
    simp only [Pool.createWorker, List.getElem?_append, List.getElem?_singleton] at hv
    split_ifs at hv
    · exact h.timedOut v left hv
    · cases hv

theorem Limits.exitWorker (h : Limits s) (w : ℕ) : Limits (s.exitWorker w) := by
  have hn : (s.exitWorker w).poolNthreads ≤ s.poolNthreads := by
    show s.poolNthreads - 1 ≤ s.poolNthreads
    omega
  exact h.move rfl hn rfl rfl (by simp)

theorem Limits.workerCleanup (h : Limits s) (w : ℕ) (ok : Bool) :
    Limits (s.workerCleanup w ok) := by
  obtain ⟨-, -, ht⟩ | ⟨-, hlt, ht⟩ | ⟨-, -, ht⟩ := workerCleanup_cases s w ok
  · rw [ht]
    exact (h.exitWorker w).congr rfl rfl rfl rfl
  · rw [ht]
    exact (h.exitWorker w).createWorker hlt
  · rw [ht]
    exact h.exitWorker w

theorem Limits.notifyWaiters (h : Limits s) : Limits s.notifyWaiters := by
  unfold Pool.notifyWaiters
  split
  · exact h.congr rfl rfl rfl rfl
  · exact h

theorem Limits.destroyWaitRound (h : Limits s) : Limits s.destroyWaitRound := by
  unfold Pool.destroyWaitRound
  split
  · exact h.congr rfl rfl rfl rfl
  · exact h.congr rfl rfl rfl rfl

/-- A worker that times out finds no job, so it creates no other worker. -/
theorem Limits.timeoutExit (h : Limits s) (hc : CountOk s) (ok : Bool)
    (hw : s.workers[w]? = some .looping) (hmin : s.poolMinimum < s.poolNthreads) :
    Limits (s.timeoutExit w ok) := by
  have hcleanup := h.workerCleanup w ok
  have hcount := (hc.workerCleanup ok hw).nthreads
  have hsettings : (s.workerCleanup w ok).poolMinimum = s.poolMinimum ∧
      s.poolNthreads - 1 ≤ (s.workerCleanup w ok).poolNthreads := by
    obtain ⟨-, -, ht⟩ | ⟨-, -, ht⟩ | ⟨-, -, ht⟩ := workerCleanup_cases s w ok
    · rw [ht]
      exact ⟨rfl, le_refl _⟩
    · rw [ht]
      exact ⟨rfl, by simp [Pool.createWorker, Pool.exitWorker]⟩
    · rw [ht]
      exact ⟨rfl, le_refl _⟩
  have hleft : (s.workerCleanup w ok).poolMinimum ≤
      (s.workerCleanup w ok).workers.countP Worker.live := by
    rw [← hcount, hsettings.1]
    have := hsettings.2
    omega
  exact hcleanup.move rfl (le_refl _) rfl rfl fun _ heq => Worker.timedOut.inj heq ▸ hleft

theorem Limits.act {ok : Bool} (h : Limits s) (hc : CountOk s) (ha : Act ok s t) :
    Limits t := by
  cases ha with
  | wake timedout hw => exact h.move rfl (le_refl _) rfl rfl (by simp)
  | create hlt => exact h.createWorker hlt
  | enterIdle hw => exact h.move rfl (le_refl _) rfl rfl (by simp)
  | notify => exact h.notifyWaiters
  | sleep timed hw _ | leaveIdle hw | takeJob hw _ _ =>
    exact h.move rfl (le_refl _) rfl rfl (by simp)
  | cleanup hw => exact h.workerCleanup _ ok
  | timeoutExit hw _ _ hmin => exact h.timeoutExit hc ok hw hmin
  | @jobCleanup w _ hw =>
    have hlooping : Limits (s.leaveActive w) :=
      h.move rfl (le_refl _) rfl rfl (by simp)
    unfold Pool.jobCleanup
    dsimp only
    split
    · exact hlooping.notifyWaiters
    · exact hlooping
  | waitRound n =>
    unfold Pool.waitRound
    split
    · exact h.congr rfl rfl rfl rfl
    · exact h.congr rfl rfl rfl rfl
  | waiterWoken n => exact h.congr rfl rfl rfl rfl
  | destroyWaitRound _ => exact h.destroyWaitRound
  | destroyBusyRound _ | destroyWaitWoken _ | destroyBusyWoken _ => exact h.congr rfl rfl rfl rfl

theorem Limits.append {q : Pool} {a func arg : ℕ} (h : Limits s)
    (hq : s.append a func arg = some q) : Limits q := by
  unfold Pool.append at hq
  dsimp only at hq
  split_ifs at hq <;> cases hq <;> exact h.congr rfl rfl rfl rfl

theorem Limits.wakeAll (h : Limits s) :
    Limits { s with poolDestroy := true, workers := s.workers.map Worker.wake } := by
  constructor
  · exact h.pos
  · exact h.le_max
  · intro w left hw
    rw [List.getElem?_map] at hw
    obtain ⟨st, hst, hwake⟩ := Option.map_eq_some_iff.mp hw
    cases st <;> cases hwake
    exact h.timedOut w left hst

theorem step_limits {e : Event} (hc : CountOk s) (hs : Limits s)
    (h : step s e = some t) : CountOk t ∧ Limits t := by
  apply step_preserves (I := fun s => CountOk s ∧ Limits s) _ _ _ ⟨hc, hs⟩ h
  · intro ok s t hs ha
    exact ⟨hs.1.act ha, hs.2.act hs.1 ha⟩
  · intro s a func arg q hs _ _ hq
    exact ⟨hs.1.append hq, hs.2.append hq⟩
  · intro s hs
    exact ⟨hs.1.wakeAll.destroyWaitRound, hs.2.wakeAll.destroyWaitRound⟩

end SeamlessStack.ThreadPool

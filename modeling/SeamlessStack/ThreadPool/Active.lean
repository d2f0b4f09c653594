import SeamlessStack.ThreadPool.Served

/-! The list of active workers. Its nodes lie on the stacks of the workers, and `job_cleanup` looks
for one by the thread id. What a worker does when its job is over is split here behind
`job_cleanup`, which leaves `pool_mutex` locked. -/
namespace SeamlessStack.ThreadPool

open Lib Function

/-- `pool_active` and the nodes `active`. That of worker `w` has the address `w + 1`. -/
structure ActiveList where
  poolActive : ℕ
  activeNext : ℕ → ℕ
  activeTid : ℕ → ℕ

namespace ActiveList

def load (m : ActiveList) : Option ℕ → ℕ
  | none => m.poolActive
  | some a => m.activeNext a

def store (m : ActiveList) (activepp : Option ℕ) (v : ℕ) : ActiveList :=
  match activepp with
  | none => { m with poolActive := v }
  | some a => { m with activeNext := update m.activeNext a v }

/-- The loop of `job_cleanup`. -/
def unlink (m : ActiveList) (myTid : ℕ) : ℕ → Option ℕ → Option ActiveList
  | 0, _ => none
  | fuel + 1, activepp =>
    let activep := m.load activepp
    if activep = 0 then some m
    else if m.activeTid activep = myTid then some (m.store activepp (m.activeNext activep))
    else m.unlink myTid fuel (some activep)

/-- Worker `w` puts its node in front. The thread id was set when the worker started. -/
def push (m : ActiveList) (w : ℕ) : ActiveList where
  poolActive := w + 1
  activeNext := update m.activeNext (w + 1) m.poolActive
  activeTid := update m.activeTid (w + 1) w

def ListsFrom (m : ActiveList) (a : ℕ) (l : List ℕ) : Prop :=
  Linked (fun a => some (m.activeNext a)) a (l.map (· + 1)) 0 ∧ ∀ w ∈ l, m.activeTid (w + 1) = w

def Lists (m : ActiveList) (l : List ℕ) : Prop := m.ListsFrom m.poolActive l

end ActiveList

/-- `mutex` is the worker that left `job_cleanup` with `pool_mutex`; `exits`: its job called
`pthread_exit`. -/
structure Held where
  pool : Pool
  active : ActiveList
  mutex : Option ℕ
  exits : Bool

namespace Held

def lock (s : Held) (w : ℕ) : Option Held :=
  if s.mutex = none then some { s with mutex := some w } else none

def unlock (s : Held) : Held := { s with mutex := none }

/-- `job_cleanup`. There are not more nodes than workers. -/
def jobCleanup (s : Held) (w : ℕ) : Option Held := do
  let s ← s.lock w
  let active ← s.active.unlink w (s.pool.workers.length + 1) none
  return { s with pool := s.pool.jobCleanup w, active }

def afterSection (s : Held) (w : ℕ) (t : Pool) : Held :=
  match t.workers[w]? with
  | some (.running _) => { s with pool := t, active := s.active.push w }
  | _ => { s with pool := t }

end Held

inductive HeldEvent
  | whole (e : Event)
  | jobCleanup (w : ℕ) (exits : Bool)
  | resume (w : ℕ) (ok : Bool)
  deriving DecidableEq, Repr

/-- A section, or `job_cleanup`, or what follows it: another round or `worker_cleanup`. -/
def heldStep (s : Held) : HeldEvent → Option Held
  | .whole (.jobReturn ..) | .whole (.jobExit ..) => none
  | .whole (.work w ok) =>
    if s.mutex = none then (step s.pool (.work w ok)).map (s.afterSection w) else none
  | .whole e => if s.mutex = none then (step s.pool e).map fun t => { s with pool := t } else none
  | .jobCleanup w exits =>
    if s.pool.destroyer = .done then none
    else match s.pool.workers[w]? with
      | some (.running _) => (s.jobCleanup w).map fun t => { t with exits }
      | _ => none
  | .resume w ok =>
    if s.mutex ≠ some w then none
    else if s.exits then some { s with pool := s.pool.workerCleanup w ok }.unlock
    else (Pool.workerLoop w ok 2 s.pool).map fun t => (s.afterSection w t).unlock

def heldSystem (p : Pool) : System Held HeldEvent where
  init s := s.pool = p ∧ s.active.poolActive = 0 ∧ s.mutex = none
  step := heldStep

/-! ### The list in memory -/

namespace ActiveList

variable {m : ActiveList} {a w v : ℕ} {l : List ℕ}

theorem listsFrom_nil : m.ListsFrom a [] ↔ a = 0 := by
  simp [ListsFrom]

theorem listsFrom_cons :
    m.ListsFrom a (v :: l) ↔
      a = v + 1 ∧ m.activeTid (v + 1) = v ∧ m.ListsFrom (m.activeNext (v + 1)) l := by
  unfold ListsFrom
  simp only [List.map_cons, linked_cons, List.forall_mem_cons, Option.some.injEq, exists_eq_left']
  tauto

theorem ListsFrom.congr {m' : ActiveList} (h : m.ListsFrom a l)
    (hnext : ∀ w ∈ l, m'.activeNext (w + 1) = m.activeNext (w + 1))
    (htid : m'.activeTid = m.activeTid) : m'.ListsFrom a l := by
  refine ⟨h.1.congr ?_, ?_⟩
  · intro b hb
    obtain ⟨w, hw, rfl⟩ := List.mem_map.mp hb
    rw [hnext w hw]
  · rw [htid]
    exact h.2

theorem Lists.push (h : m.Lists l) (hw : w ∉ l) : (m.push w).Lists (w :: l) := by
  have hne : ∀ v ∈ l, v + 1 ≠ w + 1 := by
    intro v hv heq
    obtain rfl : v = w := by omega
    exact hw hv
  refine listsFrom_cons.mpr ⟨rfl, update_self .., ?_⟩
  refine ⟨?_, ?_⟩
  · have hhead : (m.push w).activeNext (w + 1) = m.poolActive := update_self ..
    rw [hhead]
    apply h.1.congr
    intro b hb
    obtain ⟨v, hv, rfl⟩ := List.mem_map.mp hb
    exact congrArg some (update_of_ne (hne v hv) ..)
  · intro v hv
    exact (update_of_ne (hne v hv) ..).trans (h.2 v hv)

theorem store_activeNext {activepp : Option ℕ} {b : ℕ} (hpp : activepp ≠ some b) (v : ℕ) :
    (m.store activepp v).activeNext b = m.activeNext b := by
  cases activepp with
  | none => rfl
  | some a =>
    have hne : b ≠ a := by
      rintro rfl
      exact hpp rfl
    exact update_of_ne hne ..

theorem load_store (activepp : Option ℕ) (v : ℕ) : (m.store activepp v).load activepp = v := by
  cases activepp with
  | none => rfl
  | some a => exact update_self ..

theorem store_activeTid (activepp : Option ℕ) (v : ℕ) :
    (m.store activepp v).activeTid = m.activeTid := by
  cases activepp <;> rfl

/-- From `activepp` on the list loses the node of the worker, and no other pointer is written. -/
structure Unlinked (m m' : ActiveList) (activepp : Option ℕ) (l l' : List ℕ) : Prop where
  lists : m'.ListsFrom (m'.load activepp) l'
  head : activepp ≠ none → m'.poolActive = m.poolActive
  next : ∀ b, activepp ≠ some b → b ∉ l.map (· + 1) → m'.activeNext b = m.activeNext b
  tid : m'.activeTid = m.activeTid

theorem unlink_spec (w : ℕ) {fuel : ℕ} (activepp : Option ℕ)
    (hl : m.ListsFrom (m.load activepp) l) (hnodup : l.Nodup)
    (hpp : ∀ v ∈ l, activepp ≠ some (v + 1)) (hfuel : l.length < fuel) :
    ∃ m', m.unlink w fuel activepp = some m' ∧ Unlinked m m' activepp l (l.erase w) := by
  -- The recursion goes down the list, and `activepp` stands at the node before.
  induction l generalizing fuel activepp with
  | nil =>
    obtain ⟨fuel, rfl⟩ := Nat.exists_eq_add_of_lt hfuel
    have hzero := listsFrom_nil.mp hl
    refine ⟨m, ?_, hl, fun _ => rfl, fun _ _ _ => rfl, rfl⟩
    simp [unlink, hzero]
  | cons v l ih =>
    obtain ⟨hload, htid, htail⟩ := listsFrom_cons.mp hl
    obtain ⟨hnew, hnodup⟩ := List.nodup_cons.mp hnodup
    obtain ⟨fuel, rfl⟩ : ∃ k, fuel = k + 1 := ⟨fuel - 1, by simp at hfuel; omega⟩
    have hfuel' : l.length < fuel := by simpa using hfuel
    unfold unlink
    simp only [hload, Nat.add_eq_zero_iff, one_ne_zero, and_false, if_false, htid]
    by_cases hvw : v = w
    · subst hvw
      rw [if_pos rfl, List.erase_cons_head]
      refine ⟨_, rfl, ?_, ?_, ?_, store_activeTid _ _⟩
      · rw [load_store]
        apply htail.congr _ (store_activeTid _ _)
        intro u hu
        exact store_activeNext (hpp u (List.mem_cons_of_mem _ hu)) _
      · intro hne
        cases activepp with
        | none => exact absurd rfl hne
        | some a => rfl
      · intro b hb _
        exact store_activeNext hb _
    · rw [if_neg hvw, List.erase_cons_tail (by simpa using hvw)]
      have hnext : ∀ u ∈ l, some (v + 1) ≠ some (u + 1) := by
        intro u hu heq
        obtain rfl : v = u := by simpa using heq
        exact hnew hu
      obtain ⟨m', hm', hdone⟩ := ih (some (v + 1)) htail hnodup hnext hfuel'
      refine ⟨m', hm', ?_, ?_, ?_, hdone.tid⟩
      · -- The pointer at `activepp` is not written, and leads to the node as before.
        have hkeep : m'.load activepp = v + 1 := by
          rw [← hload]
          cases activepp with
          | none => exact hdone.head (by simp)
          | some a =>
            refine hdone.next a ?_ ?_
            · exact fun heq => hpp v (List.mem_cons_self ..) heq.symm
            · intro ha
              obtain ⟨u, hu, rfl⟩ := List.mem_map.mp ha
              exact hpp u (List.mem_cons_of_mem _ hu) rfl
        refine listsFrom_cons.mpr ⟨hkeep, ?_, hdone.lists⟩
        rw [hdone.tid]
        exact htid
      · intro _
        exact hdone.head (by simp)
      · intro b _ hb
        rw [List.map_cons, List.mem_cons, not_or] at hb
        refine hdone.next b ?_ hb.2
        intro heq
        exact hb.1 (Option.some.inj heq).symm

theorem Lists.unlink (h : m.Lists l) (hnodup : l.Nodup) (w : ℕ) {fuel : ℕ}
    (hfuel : l.length < fuel) :
    ∃ m', m.unlink w fuel none = some m' ∧ m'.Lists (l.erase w) := by
  obtain ⟨m', hm', hdone⟩ := unlink_spec w none h hnodup (by simp) hfuel
  exact ⟨m', hm', hdone.lists⟩

end ActiveList

/-! ### What a section does to the active list -/

section Sections

variable {s t : Pool} {w : ℕ} {ok : Bool}

@[simp] theorem notifyWaiters_poolActive (s : Pool) :
    s.notifyWaiters.poolActive = s.poolActive := by
  unfold Pool.notifyWaiters
  split <;> rfl

@[simp] theorem workerCleanup_poolActive (s : Pool) (w : ℕ) (ok : Bool) :
    (s.workerCleanup w ok).poolActive = s.poolActive := by
  obtain ⟨-, -, ht⟩ | ⟨-, -, ht⟩ | ⟨-, -, ht⟩ := workerCleanup_cases s w ok <;> rw [ht] <;> rfl

theorem jobCleanup_poolActive (s : Pool) (w : ℕ) :
    (s.jobCleanup w).poolActive = s.poolActive.erase w := by
  unfold Pool.jobCleanup
  dsimp only
  split
  · rw [notifyWaiters_poolActive]
    rfl
  · rfl

/-- A section of `w` behind `job_cleanup` changes the list only to put `w` in front. -/
def AddsAtMost (w : ℕ) (s t : Pool) : Prop :=
  t.poolActive = s.poolActive ∨ t.poolActive = w :: s.poolActive

theorem afterWait_addsAtMost {again : Pool → Option Pool} {timedout : Bool}
    (hagain : ∀ s t, again s = some t → AddsAtMost w s t)
    (h : Pool.afterWait again w ok timedout s = some t) : AddsAtMost w s t := by
  unfold Pool.afterWait at h
  dsimp only at h
  split at h
  · cases h
    exact Or.inl (workerCleanup_poolActive ..)
  split at h
  · cases h
    exact Or.inr rfl
  split at h
  · cases h
    exact Or.inl (workerCleanup_poolActive ..)
  · have hadds : AddsAtMost w (s.leaveIdle w) t := hagain _ _ h
    exact hadds

theorem waitLoop_addsAtMost {again : Pool → Option Pool}
    (hagain : ∀ s t, again s = some t → AddsAtMost w s t)
    (h : Pool.waitLoop again w ok s = some t) : AddsAtMost w s t := by
  unfold Pool.waitLoop at h
  split at h
  · split at h
    · cases h
      exact Or.inl rfl
    split at h
    · exact afterWait_addsAtMost hagain h
    · cases h
      exact Or.inl rfl
  · exact afterWait_addsAtMost hagain h

theorem workerLoop_addsAtMost (fuel : ℕ) :
    ∀ s t, Pool.workerLoop w ok fuel s = some t → AddsAtMost w s t := by
  induction fuel with
  | zero =>
    intro s t h
    cases h
  | succ fuel ih =>
    intro s t h
    unfold Pool.workerLoop at h
    dsimp only at h
    have hsame : ∀ u : Pool, u.poolActive = s.poolActive → AddsAtMost w u t →
        AddsAtMost w s t := by
      intro u hu hadds
      unfold AddsAtMost at hadds ⊢
      rwa [hu] at hadds
    refine hsame _ ?_ (waitLoop_addsAtMost ih h)
    split
    · exact notifyWaiters_poolActive _
    · rfl

theorem work_addsAtMost (h : step s (.work w ok) = some t) : AddsAtMost w s t := by
  unfold step at h
  split at h
  · cases h
  dsimp only at h
  split at h
  · exact workerLoop_addsAtMost 2 s t h
  · exact waitLoop_addsAtMost (workerLoop_addsAtMost 2) h
  · exact afterWait_addsAtMost (workerLoop_addsAtMost 2) h
  · cases h

theorem work_notMem (hc : CountOk s) (h : step s (.work w ok) = some t) : w ∉ s.poolActive := by
  unfold step at h
  split at h
  · cases h
  dsimp only at h
  split at h
  · rename_i hw
    simp [hc.mem_iff hw, Worker.active]
  · rename_i hw
    simp [hc.mem_iff hw, Worker.active]
  · rename_i hw
    simp [hc.mem_iff hw, Worker.active]
  · cases h

theorem offer_poolActive {target : Option ℕ} (h : s.offer ok target = some t) :
    t.poolActive = s.poolActive := by
  unfold Pool.offer at h
  split at h
  · unfold Pool.signalWork at h
    split at h
    · split at h
      · cases h
        rfl
      · cases h
    · split at h
      · cases h
      · cases h
        rfl
  split at h
  · cases h
    rfl
  · cases h
    rfl

theorem append_poolActive {a func arg : ℕ} (h : s.append a func arg = some t) :
    t.poolActive = s.poolActive := by
  unfold Pool.append at h
  dsimp only at h
  split_ifs at h <;> cases h <;> rfl

/-- The sections of callers, and wakeups, leave the list as it is. -/
theorem step_poolActive {e : Event} (h : step s e = some t)
    (hwork : ∀ w ok, e ≠ .work w ok) (hreturn : ∀ w ok, e ≠ .jobReturn w ok)
    (hexit : ∀ w ok, e ≠ .jobExit w ok) : t.poolActive = s.poolActive := by
  have hround : s.destroyWaitRound.poolActive = s.poolActive := by
    unfold Pool.destroyWaitRound
    split <;> rfl
  unfold step at h
  split at h
  · cases h
  cases e with
  | work w ok => exact absurd rfl (hwork w ok)
  | jobReturn w ok => exact absurd rfl (hreturn w ok)
  | jobExit w ok => exact absurd rfl (hexit w ok)
  | queue a func arg ok target =>
    dsimp only [Pool.sstackThreadPoolQueue] at h
    split at h
    · cases h
    obtain ⟨q, hq, ht⟩ := Option.bind_eq_some_iff.mp h
    rw [offer_poolActive ht, append_poolActive hq]
  | timeout w | spurious w =>
    dsimp only at h
    split at h <;> cases h
    rfl
  | wait n | waitWork n =>
    dsimp only at h
    split at h <;> cases h
    unfold Pool.waitRound
    split <;> rfl
  | waitSpurious n =>
    dsimp only at h
    split at h <;> cases h
    rfl
  | destroy =>
    dsimp only at h
    split at h <;> cases h
    unfold Pool.sstackThreadPoolDestroy Pool.destroyWaitRound
    split <;> rfl
  | destroyWork =>
    dsimp only at h
    split at h <;> cases h
    · exact hround
    · rfl
  | destroySpurious =>
    dsimp only at h
    split at h <;> cases h <;> rfl

end Sections

/-! ### Runs -/

/-- With the mutex free the pool is in a state of whole sections, else in the middle of one. -/
structure HeldOk (p : Pool) (s : Held) : Prop where
  lists : s.active.Lists s.pool.poolActive
  free : s.mutex = none → (poolSystem p).Reach System.AnyStep s.pool
  held : ∀ w, s.mutex = some w → ∃ s₀ job, (poolSystem p).Reach System.AnyStep s₀ ∧
    s₀.destroyer ≠ .done ∧ s₀.workers[w]? = some (.running job) ∧ s.pool = s₀.jobCleanup w

section Runs

variable {minThreads maxThreads linger : UInt32} {p : Pool} {s t : Held} {w : ℕ}

/-- A worker that took a job is the one that was added to the list. -/
theorem lists_afterSection {u : Pool} (hl : s.active.Lists s.pool.poolActive) (hc : CountOk u)
    (hadds : AddsAtMost w s.pool u) (hw : w ∉ s.pool.poolActive) :
    (s.afterSection w u).active.Lists (s.afterSection w u).pool.poolActive := by
  unfold Held.afterSection
  split
  · rename_i job hrun
    have hmem : w ∈ u.poolActive := (hc.mem_iff hrun).mpr rfl
    obtain hsame | hcons := hadds
    · rw [hsame] at hmem
      exact absurd hmem hw
    · rw [hcons]
      exact hl.push hw
  · rename_i hrun
    obtain hsame | hcons := hadds
    · rw [hsame]
      exact hl
    · have hmem : w ∈ u.poolActive := by
        rw [hcons]
        exact List.mem_cons_self ..
      obtain ⟨st, hst, hactive⟩ := (hc.mem w).mp hmem
      cases st with
      | running job => exact absurd hst (hrun job)
      | _ => cases hactive

@[simp] theorem afterSection_pool (s : Held) (w : ℕ) (u : Pool) :
    (s.afterSection w u).pool = u := by
  unfold Held.afterSection
  split <;> rfl

@[simp] theorem afterSection_mutex (s : Held) (w : ℕ) (u : Pool) :
    (s.afterSection w u).mutex = s.mutex := by
  unfold Held.afterSection
  split <;> rfl

theorem HeldOk.jobCleanup (hp : sstackThreadPoolCreate minThreads maxThreads linger = some p)
    (h : HeldOk p s) (hfree : s.mutex = none) (w : ℕ) :
    ∃ active, s.jobCleanup w = some ⟨s.pool.jobCleanup w, active, some w, s.exits⟩ ∧
      active.Lists (s.pool.poolActive.erase w) := by
  have hc := reach_countOk hp (h.free hfree)
  have hlength : s.pool.poolActive.length < s.pool.workers.length + 1 := by
    rw [hc.length]
    exact Nat.lt_succ_of_le List.countP_le_length
  obtain ⟨active, hunlink, hlists⟩ := h.lists.unlink hc.nodup w hlength
  refine ⟨active, ?_, hlists⟩
  unfold Held.jobCleanup Held.lock
  rw [if_pos hfree, Option.bind_eq_bind, Option.bind_some]
  dsimp only
  rw [hunlink]
  rfl

theorem heldStep_whole {e : Event} (h : HeldOk p s)
    (hp : sstackThreadPoolCreate minThreads maxThreads linger = some p)
    (ht : heldStep s (.whole e) = some t) : HeldOk p t := by
  have hother : (∀ w ok, e ≠ .work w ok) → (∀ w ok, e ≠ .jobReturn w ok) →
      (∀ w ok, e ≠ .jobExit w ok) →
      (if s.mutex = none then (step s.pool e).map fun t => { s with pool := t } else none) =
        some t → HeldOk p t := by
    intro hwork hreturn hexit ht
    split at ht
    · rename_i hfree
      obtain ⟨u, hu, rfl⟩ := Option.map_eq_some_iff.mp ht
      refine ⟨?_, fun _ => .step (h.free hfree) trivial hu, ?_⟩
      · change s.active.Lists u.poolActive
        rw [step_poolActive hu hwork hreturn hexit]
        exact h.lists
      · intro w hw
        exact absurd (hfree.symm.trans hw) (by simp)
    · cases ht
  cases e with
  | work w ok =>
    dsimp only [heldStep] at ht
    split at ht
    · rename_i hfree
      obtain ⟨u, hu, rfl⟩ := Option.map_eq_some_iff.mp ht
      have hreach : (poolSystem p).Reach System.AnyStep u :=
        .step (e := .work w ok) (h.free hfree) trivial hu
      have hnot := work_notMem (reach_countOk hp (h.free hfree)) hu
      refine ⟨?_, ?_, ?_⟩
      · exact lists_afterSection h.lists (reach_countOk hp hreach) (work_addsAtMost hu) hnot
      · rw [afterSection_pool]
        exact fun _ => hreach
      · rw [afterSection_mutex, hfree]
        intro v hv
        cases hv
    · cases ht
  | jobReturn w ok => cases ht
  | jobExit w ok => cases ht
  | _ => exact hother (by simp) (by simp) (by simp) ht

theorem heldStep_resume {ok : Bool} (h : HeldOk p s)
    (hp : sstackThreadPoolCreate minThreads maxThreads linger = some p)
    (ht : heldStep s (.resume w ok) = some t) : HeldOk p t := by
  dsimp only [heldStep] at ht
  split at ht
  · cases ht
  rename_i hmutex
  obtain ⟨s₀, job, hreach, hlive, hw, hpool⟩ := h.held w (not_not.mp hmutex)
  have hc := reach_countOk hp hreach
  split at ht
  · have hstep : step s₀ (.jobExit w ok) = some ((s₀.jobCleanup w).workerCleanup w ok) := by
      unfold step
      rw [if_neg hlive]
      dsimp only
      rw [hw]
    cases ht
    refine ⟨?_, fun _ => ?_, ?_⟩
    · change s.active.Lists (s.pool.workerCleanup w ok).poolActive
      rw [workerCleanup_poolActive]
      exact h.lists
    · change (poolSystem p).Reach System.AnyStep (s.pool.workerCleanup w ok)
      rw [hpool]
      exact .step (e := .jobExit w ok) hreach trivial hstep
    · intro v hv
      cases hv
  · obtain ⟨u, hu, rfl⟩ := Option.map_eq_some_iff.mp ht
    have hstep : step s₀ (.jobReturn w ok) = some u := by
      unfold step
      rw [if_neg hlive]
      dsimp only
      rw [hw]
      rw [hpool] at hu
      exact hu
    have hreach' : (poolSystem p).Reach System.AnyStep u :=
      .step (e := .jobReturn w ok) hreach trivial hstep
    have hnot : w ∉ s.pool.poolActive := by
      rw [hpool, jobCleanup_poolActive]
      exact hc.nodup.not_mem_erase
    refine ⟨?_, fun _ => ?_, ?_⟩
    · exact lists_afterSection h.lists (reach_countOk hp hreach')
        (workerLoop_addsAtMost 2 _ _ hu) hnot
    · change (poolSystem p).Reach System.AnyStep (s.afterSection w u).pool
      rw [afterSection_pool]
      exact hreach'
    · intro v hv
      cases hv

/-- What the step of `job_cleanup` is: the mutex was free and the worker ran a job. -/
theorem heldStep_jobCleanup {exits : Bool} (h : HeldOk p s)
    (hp : sstackThreadPoolCreate minThreads maxThreads linger = some p)
    (ht : heldStep s (.jobCleanup w exits) = some t) :
    s.mutex = none ∧ s.pool.destroyer ≠ .done ∧
      (∃ job, s.pool.workers[w]? = some (.running job)) ∧
      ∃ active, t = ⟨s.pool.jobCleanup w, active, some w, exits⟩ ∧
        active.Lists (s.pool.poolActive.erase w) := by
  dsimp only [heldStep] at ht
  split at ht
  · cases ht
  rename_i hlive
  split at ht
  · rename_i job hw
    obtain ⟨u, hu, rfl⟩ := Option.map_eq_some_iff.mp ht
    have hfree : s.mutex = none := by
      by_contra hne
      unfold Held.jobCleanup Held.lock at hu
      rw [if_neg hne] at hu
      cases hu
    obtain ⟨active, hclean, hlists⟩ := h.jobCleanup hp hfree w
    obtain rfl := Option.some.inj (hclean.symm.trans hu)
    exact ⟨hfree, hlive, ⟨job, hw⟩, active, rfl, hlists⟩
  · cases ht

theorem reach_heldOk (hp : sstackThreadPoolCreate minThreads maxThreads linger = some p)
    (hr : (heldSystem p).Reach System.AnyStep s) : HeldOk p s := by
  apply hr.invariant
  · rintro s ⟨hpool, hempty, hfree⟩
    have hnil : p.poolActive = [] := by
      unfold sstackThreadPoolCreate at hp
      split at hp
      · cases hp
      · cases hp
        rfl
    refine ⟨?_, fun _ => .init hpool, ?_⟩
    · rw [hpool, hnil]
      exact ActiveList.listsFrom_nil.mpr hempty
    · intro w hw
      exact absurd (hfree.symm.trans hw) (by simp)
  · intro s e t _ h _ ht
    cases e with
    | whole e => exact heldStep_whole h hp ht
    | resume w ok => exact heldStep_resume h hp ht
    | jobCleanup w exits =>
      obtain ⟨hfree, hlive, ⟨job, hw⟩, active, rfl, hlists⟩ := heldStep_jobCleanup h hp ht
      refine ⟨?_, ?_, ?_⟩
      · change active.Lists (s.pool.jobCleanup w).poolActive
        rw [jobCleanup_poolActive]
        exact hlists
      · intro hnone
        cases hnone
      · intro v hv
        obtain rfl : w = v := Option.some.inj hv
        exact ⟨s.pool, job, h.free hfree, hlive, hw, rfl⟩

/-- While the mutex is free the active list has one node for every worker that runs a job, and no
other. `job_cleanup` returns, takes just the node of its worker out, and then only this worker can
go on. -/
theorem active_list_exact (hp : sstackThreadPoolCreate minThreads maxThreads linger = some p)
    (hr : (heldSystem p).Reach System.AnyStep s) :
    (s.mutex = none → ∃ l, s.active.Lists l ∧ l.Nodup ∧
      ∀ w, w ∈ l ↔ ∃ job, s.pool.workers[w]? = some (.running job)) ∧
    (∀ w job exits, s.mutex = none → s.pool.destroyer ≠ .done →
      s.pool.workers[w]? = some (.running job) →
      ∃ t, heldStep s (.jobCleanup w exits) = some t) ∧
    ∀ w exits t, heldStep s (.jobCleanup w exits) = some t → t.mutex = some w ∧
      (∃ before after, s.active.Lists (before ++ w :: after) ∧ t.active.Lists (before ++ after)) ∧
      ∀ e u, heldStep t e = some u → ∃ ok, e = .resume w ok := by
  have h := reach_heldOk hp hr
  refine ⟨?_, ?_, ?_⟩
  · intro hfree
    have hc := reach_countOk hp (h.free hfree)
    refine ⟨_, h.lists, hc.nodup, ?_⟩
    intro w
    rw [hc.mem]
    constructor
    · rintro ⟨st, hst, hactive⟩
      cases st with
      | running job => exact ⟨job, hst⟩
      | _ => cases hactive
    · rintro ⟨job, hjob⟩
      exact ⟨_, hjob, rfl⟩
  · intro w job exits hfree hlive hw
    obtain ⟨active, hclean, -⟩ := h.jobCleanup hp hfree w
    dsimp only [heldStep]
    rw [if_neg hlive, hw]
    dsimp only
    rw [hclean]
    exact ⟨_, rfl⟩
  · intro w exits t ht
    obtain ⟨hfree, -, ⟨job, hw⟩, active, rfl, hlists⟩ := heldStep_jobCleanup h hp ht
    have hc := reach_countOk hp (h.free hfree)
    obtain ⟨before, after, hsplit⟩ := List.append_of_mem ((hc.mem_iff hw).mpr rfl)
    refine ⟨rfl, ⟨before, after, ?_, ?_⟩, ?_⟩
    · rw [← hsplit]
      exact h.lists
    · have hnodup := hc.nodup
      rw [hsplit] at hnodup hlists
      have hbefore : w ∉ before := by
        intro hmem
        exact (List.nodup_append.mp hnodup).2.2 w hmem w (List.mem_cons_self ..) rfl
      rw [List.erase_append_right _ hbefore, List.erase_cons_head] at hlists
      exact hlists
    · intro e u hu
      cases e with
      | whole e => cases e <;> cases hu
      | jobCleanup v exits' =>
        have hheld := reach_heldOk hp (.step (e := .jobCleanup w exits) hr trivial ht)
        obtain ⟨hnone, -⟩ := heldStep_jobCleanup hheld hp hu
        cases hnone
      | resume v ok =>
        dsimp only [heldStep] at hu
        split at hu
        · cases hu
        · rename_i hsame
          obtain rfl : w = v := Option.some.inj (not_not.mp hsame)
          exact ⟨ok, rfl⟩

end Runs

theorem active_list_exact_one : ∃ p s t, sstackThreadPoolCreate 1 2 0 = some p ∧
    (heldSystem p).Reach System.AnyStep s ∧ s.mutex = none ∧
    heldStep s (.jobCleanup 0 true) = some t ∧ t.mutex = some 0 ∧
    ∃ l, s.active.Lists l ∧ 0 ∈ l := by
  have hrun : ∃ p s job, sstackThreadPoolCreate 1 2 0 = some p ∧
      (heldSystem p).run System.AnyStep ⟨p, ⟨0, fun _ => 0, fun _ => 0⟩, none, false⟩
        [.whole (.queue 8 1 2 true none), .whole (.work 0 true)] = some s ∧
      s.mutex = none ∧ s.pool.destroyer = .notCalled ∧
      s.pool.workers[0]? = some (.running job) := ⟨_, _, _, rfl, rfl, rfl, rfl, rfl⟩
  obtain ⟨p, s, job, hp, hs, hfree, hlive, hw⟩ := hrun
  have hr : (heldSystem p).Reach System.AnyStep s := .run (.init ⟨rfl, rfl, rfl⟩) hs
  obtain ⟨hlist, hreturns, hclean⟩ := active_list_exact hp hr
  obtain ⟨t, ht⟩ := hreturns 0 job true hfree (by rw [hlive]; decide) hw
  obtain ⟨l, hl, -, hmem⟩ := hlist hfree
  exact ⟨p, s, t, hp, hr, hfree, ht, (hclean 0 true t ht).1, l, hl, (hmem 0).mpr ⟨job, hw⟩⟩

end SeamlessStack.ThreadPool

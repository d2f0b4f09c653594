import SeamlessStack.Lib.Ring
import SeamlessStack.ThreadPool.Pool

/-! `thr_pools` and the links `pool_forw` and `pool_back`, as `sstack_thread_pool_create` and
`sstack_thread_pool_destroy` change them under `thr_pool_lock`. Address 0 is `NULL`. -/
namespace SeamlessStack.ThreadPool
open Lib Function

/-- `next` is `pool_forw`, `prev` is `pool_back`; `live` are the pools created and not freed. -/
structure AllPools where
  links : Links ℕ
  thrPools : ℕ
  live : List ℕ

namespace AllPools

def insertPool (s : AllPools) (pool : ℕ) : AllPools :=
  if s.thrPools = 0 then { s with links := s.links.reset pool, thrPools := pool }
  else { s with links := s.links.addTail pool s.thrPools }

/-- The part of `sstack_thread_pool_destroy` under the lock. -/
def unlinkPool (s : AllPools) (pool : ℕ) : AllPools :=
  let thrPools := if s.thrPools = pool then s.links.next pool else s.thrPools
  if thrPools = pool then { s with thrPools := 0 }
  else
    -- the second store follows `pool_forw` after the first one
    let forw := update s.links.next (s.links.prev pool) (s.links.next pool)
    let back := update s.links.prev (forw pool) (s.links.prev pool)
    { s with links := ⟨forw, back⟩, thrPools := thrPools }

/-- A `sstack_thread_pool_create` that gets `pool`, or a `sstack_thread_pool_destroy`. -/
inductive Call
  | create (minThreads maxThreads linger : UInt32) (pool : ℕ)
  | destroy (pool : ℕ)
  deriving DecidableEq, Repr

/-- `malloc` returns no memory that is in use, and only a pool that is there is destroyed. -/
def step (s : AllPools) : Call → Option AllPools
  | .create minThreads maxThreads linger pool =>
    if (sstackThreadPoolCreate minThreads maxThreads linger).isNone ∨ pool = 0 then some s
    else if pool ∈ s.live then none
    else some { s.insertPool pool with live := s.live ++ [pool] }
  | .destroy pool =>
    if pool ∈ s.live then some { s.unlinkPool pool with live := s.live.erase pool } else none

def system : System AllPools Call where
  init s := s.thrPools = 0 ∧ s.live = []
  step := step

/-- `thr_pools` is the first of the pools, and they form a ring in the order of their creation. -/
structure Threaded (s : AllPools) : Prop where
  nonzero : 0 ∉ s.live
  empty : s.live = [] → s.thrPools = 0
  ring : ∀ h l, s.live = h :: l → s.thrPools = h ∧ s.links.Ring h l

variable {s t : AllPools} {pool : ℕ}

theorem step_cases {c : Call} (hstep : s.step c = some t) :
    t = s ∨ (∃ pool, pool ≠ 0 ∧ pool ∉ s.live ∧
        t = { s.insertPool pool with live := s.live ++ [pool] }) ∨
      ∃ pool ∈ s.live, t = { s.unlinkPool pool with live := s.live.erase pool } := by
  cases c with
  | create minThreads maxThreads linger pool =>
    simp only [step] at hstep
    split_ifs at hstep with hfail hused
    · exact Or.inl (Option.some.inj hstep).symm
    · exact Or.inr (Or.inl ⟨pool, fun h0 => hfail (Or.inr h0), hused, (Option.some.inj hstep).symm⟩)
  | destroy pool =>
    simp only [step] at hstep
    split_ifs at hstep with hlive
    exact Or.inr (Or.inr ⟨pool, hlive, (Option.some.inj hstep).symm⟩)

theorem unlinkPool_of_ne
    (hne : (if s.thrPools = pool then s.links.next pool else s.thrPools) ≠ pool) :
    s.unlinkPool pool = { s with
      links := s.links.del pool
      thrPools := if s.thrPools = pool then s.links.next pool else s.thrPools } := by
  have hforw : update s.links.next (s.links.prev pool) (s.links.next pool) pool =
      s.links.next pool := by
    by_cases hself : pool = s.links.prev pool
    · rw [← hself, update_self]
    · rw [update_of_ne hself]
  unfold unlinkPool
  simp only [if_neg hne, hforw]
  rfl

theorem Threaded.insertPool (hs : s.Threaded) (h0 : pool ≠ 0) (hnew : pool ∉ s.live) :
    Threaded { s.insertPool pool with live := s.live ++ [pool] } := by
  refine ⟨by simpa [Ne.symm h0] using hs.nonzero, by simp, fun h l he => ?_⟩
  have he : s.live ++ [pool] = h :: l := he
  cases hlive : s.live with
  | nil =>
    rw [hlive, List.nil_append, List.cons.injEq] at he
    obtain ⟨rfl, rfl⟩ := he
    rw [AllPools.insertPool, if_pos (hs.empty hlive)]
    exact ⟨rfl, Links.ring_reset⟩
  | cons k m =>
    rw [hlive, List.cons_append, List.cons.injEq] at he
    obtain ⟨rfl, rfl⟩ := he
    obtain ⟨hthr, hring⟩ := hs.ring k m hlive
    have hk : s.thrPools ≠ 0 := fun e => hs.nonzero (by simp [hlive, ← hthr, e])
    rw [AllPools.insertPool, if_neg hk, hthr]
    exact ⟨rfl, hring.addTail (hlive ▸ hnew)⟩

theorem Threaded.unlinkPool (hs : s.Threaded) (hpool : pool ∈ s.live) :
    Threaded { s.unlinkPool pool with live := s.live.erase pool } := by
  obtain ⟨k, m, hlive⟩ := List.exists_cons_of_ne_nil (List.ne_nil_of_mem hpool)
  obtain ⟨hthr, hring⟩ := hs.ring k m hlive
  have hnonzero : 0 ∉ s.live.erase pool := fun h0 => hs.nonzero (List.mem_of_mem_erase h0)
  by_cases hfirst : pool = k
  · subst hfirst
    have herase : s.live.erase pool = m := by rw [hlive, List.erase_cons_head]
    cases m with
    | nil =>
      have hself : s.links.next pool = pool := hring.path
      refine ⟨hnonzero, fun _ => ?_, fun h l he => ?_⟩
      · simp [AllPools.unlinkPool, hthr, hself]
      · exact absurd (herase.symm.trans he) (List.cons_ne_nil h l).symm
    | cons x m =>
      -- the next pool becomes the first one
      have hnext : s.links.next pool = x := hring.path.1
      have hne : x ≠ pool := fun e => (List.nodup_cons.mp hring.nodup).1 (by simp [e])
      have hthr' : (if s.thrPools = pool then s.links.next pool else s.thrPools) = x := by
        rw [if_pos hthr, hnext]
      rw [unlinkPool_of_ne (by rwa [hthr']), hthr', herase]
      refine ⟨herase ▸ hnonzero, by simp, fun h l he => ?_⟩
      obtain ⟨rfl, rfl⟩ := List.cons.inj he
      have hturned : s.links.Ring x (m ++ [pool]) :=
        (show s.links.Ring pool ([] ++ x :: m) from hring).rotate
      have hrest : (s.links.del pool).Ring x (m ++ []) := hturned.del
      exact ⟨rfl, by rwa [List.append_nil] at hrest⟩
  · have hmem : pool ∈ m := by
      rw [hlive] at hpool
      exact (List.mem_cons.mp hpool).resolve_left hfirst
    have hthr' : (if s.thrPools = pool then s.links.next pool else s.thrPools) = k := by
      rw [if_neg (by rw [hthr]; exact Ne.symm hfirst), hthr]
    have herase : s.live.erase pool = k :: m.erase pool := by
      rw [hlive, List.erase_cons_tail (by simpa using Ne.symm hfirst)]
    rw [unlinkPool_of_ne (by rw [hthr']; exact Ne.symm hfirst), hthr', herase]
    refine ⟨herase ▸ hnonzero, by simp, fun h l he => ?_⟩
    obtain ⟨rfl, rfl⟩ := List.cons.inj he
    exact ⟨rfl, hring.del_erase hmem⟩

theorem reach_threaded (hr : system.Reach System.AnyStep s) : s.Threaded := by
  refine hr.invariant (fun s hinit => ?_) fun s c t _ hs _ hstep => ?_
  · obtain ⟨hthr, hlive⟩ := hinit
    exact ⟨by simp [hlive], fun _ => hthr, fun h l he => by simp [hlive] at he⟩
  · rcases step_cases hstep with rfl | ⟨pool, h0, hnew, rfl⟩ | ⟨pool, hpool, rfl⟩
    · exact hs
    · exact hs.insertPool h0 hnew
    · exact hs.unlinkPool hpool

/-- `thr_pools` is `NULL` just when no pool is there; otherwise `pool_forw` leads from it through
all pools, each once, and back, and `pool_back` the other way. -/
theorem thrPools_ring (hr : system.Reach System.AnyStep s) :
    (s.thrPools = 0 ↔ s.live = []) ∧
      (s.thrPools ≠ 0 → ∃ l, s.links.Ring s.thrPools l ∧ ∀ p, p ∈ s.thrPools :: l ↔ p ∈ s.live) ∧
      ∀ p ∈ s.live, s.links.prev (s.links.next p) = p ∧ s.links.next (s.links.prev p) = p := by
  have hs := reach_threaded hr
  cases hlive : s.live with
  | nil =>
    have hthr := hs.empty hlive
    exact ⟨by simp [hthr], fun hne => absurd hthr hne, by simp⟩
  | cons k m =>
    obtain ⟨rfl, hring⟩ := hs.ring k m hlive
    have hne : s.thrPools ≠ 0 := fun e => hs.nonzero (by simp [hlive, e])
    refine ⟨by simpa using hne, fun _ => ⟨m, hring, fun p => Iff.rfl⟩, fun p hp => ?_⟩
    exact ⟨hring.back p hp, hring.next_prev hp⟩

def createThree : List Call :=
  [.create 1 2 0 16, .create 1 2 0 32, .create 1 2 0 48, .destroy 16, .create 1 4 0 16]

theorem thrPools_ring_three :
    ∃ s, system.run System.AnyStep ⟨⟨id, id⟩, 0, []⟩ createThree = some s ∧
    s.thrPools = 32 ∧ s.live = [32, 48, 16] ∧
      ∃ l, s.links.Ring s.thrPools l ∧ ∀ p, p ∈ s.thrPools :: l ↔ p ∈ s.live := by
  obtain ⟨s, hrun, hthr, hlive⟩ : ∃ s, system.run System.AnyStep ⟨⟨id, id⟩, 0, []⟩ createThree =
      some s ∧ s.thrPools = 32 ∧ s.live = [32, 48, 16] := ⟨_, rfl, rfl, rfl⟩
  have hring := (thrPools_ring (.run (.init ⟨rfl, rfl⟩) hrun)).2.1 (by simp [hthr])
  exact ⟨s, hrun, hthr, hlive, hring⟩

end AllPools
end SeamlessStack.ThreadPool

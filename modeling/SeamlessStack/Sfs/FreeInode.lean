import SeamlessStack.Db.Inode
import SeamlessStack.Lib.Runs

/-! The number is counted up under `inode_mutex`, and read for the result after the mutex was given
back. -/
namespace SeamlessStack.Sfs.FreeInode

open Lib

/-- Where a thread stands in `get_free_inode`: outside, or after one of its first three steps. -/
inductive Pc
  | outside
  | locked
  | incremented
  | unlocked
  deriving DecidableEq, Repr

/-- The mutex, the global number, where each thread stands, and what the calls returned. -/
structure Threads where
  inodeMutex : Option ℕ
  inodeNumber : BitVec 64
  pcs : ℕ → Pc
  returned : List (BitVec 64)

/-- The steps of a call by the thread `t`. -/
inductive Event
  | lock (t : ℕ)
  | increment (t : ℕ)
  | unlock (t : ℕ)
  | read (t : ℕ)
  deriving DecidableEq, Repr

def Threads.goTo (s : Threads) (t : ℕ) (pc : Pc) : Threads :=
  { s with pcs := Function.update s.pcs t pc }

def getFreeInode (s : Threads) : Event → Option Threads
  | .lock t =>
    if s.pcs t = .outside ∧ s.inodeMutex = none then
      some { s.goTo t .locked with inodeMutex := some t }
    else none
  | .increment t =>
    if s.pcs t = .locked then
      some { s.goTo t .incremented with inodeNumber := s.inodeNumber + 1 }
    else none
  | .unlock t =>
    if s.pcs t = .incremented then some { s.goTo t .unlocked with inodeMutex := none } else none
  | .read t =>
    if s.pcs t = .unlocked then
      some { s.goTo t .outside with returned := s.returned ++ [s.inodeNumber] }
    else none

def start : Threads := ⟨none, Db.inodeNumStart, fun _ => .outside, []⟩

def freeInodeSystem : System Threads Event where
  init s := s = start
  step := getFreeInode

/-- The numbers that are read in a run from `number` on. -/
def readNumbers : BitVec 64 → List Event → List (BitVec 64)
  | _, [] => []
  | number, .read _ :: es => number :: readNumbers number es
  | number, .increment _ :: es => readNumbers (number + 1) es
  | number, .lock _ :: es => readNumbers number es
  | number, .unlock _ :: es => readNumbers number es

def increments : List Event → ℕ
  | [] => 0
  | .increment _ :: es => increments es + 1
  | .read _ :: es | .lock _ :: es | .unlock _ :: es => increments es

/-- Between two reads the number changes: it is counted up, and does not come round to where it
was. -/
def Separated (es : List Event) : Prop :=
  ∀ before t between t' after, es = before ++ .read t :: (between ++ .read t' :: after) →
    ¬ 2 ^ 64 ∣ increments between

variable {s : Threads} {es : List Event}

theorem run_returned {s' : Threads} (h : freeInodeSystem.run System.AnyStep s es = some s') :
    s'.returned = s.returned ++ readNumbers s.inodeNumber es := by
  induction es generalizing s with
  | nil =>
    obtain rfl := Option.some.inj h
    exact (List.append_nil _).symm
  | cons e es ih =>
    obtain ⟨u, hu, hrun⟩ := Option.bind_eq_some_iff.mp ((if_pos trivial).symm.trans h)
    have hu : getFreeInode s e = some u := hu
    have hrest := ih hrun
    cases e <;> simp only [getFreeInode, Option.ite_none_right_eq_some, Option.some.injEq] at hu
    all_goals
      obtain ⟨-, rfl⟩ := hu
      simpa [Threads.goTo, readNumbers] using hrest

variable {e : Event}

theorem exists_read_cons {P : List Event → Prop} :
    (∃ between t after, e :: es = between ++ .read t :: after ∧ P between) ↔
      (∃ t, e = .read t ∧ P []) ∨
        ∃ between t after, es = between ++ .read t :: after ∧ P (e :: between) := by
  constructor
  · rintro ⟨between, t, after, heq, hP⟩
    cases between with
    | nil => exact .inl ⟨t, (List.cons.inj heq).1, hP⟩
    | cons e' between =>
      obtain ⟨rfl, htail⟩ := List.cons.inj heq
      exact .inr ⟨between, t, after, htail, hP⟩
  · rintro (⟨t, rfl, hP⟩ | ⟨between, t, after, rfl, hP⟩)
    · exact ⟨[], t, es, rfl, hP⟩
    · exact ⟨e :: between, t, after, rfl, hP⟩

variable {number : BitVec 64}

/-- A number is read if it is what the increments before some read have made of the first one. -/
theorem mem_readNumbers {v : BitVec 64} :
    v ∈ readNumbers number es ↔
      ∃ between t after, es = between ++ .read t :: after ∧
        v = number + BitVec.ofNat 64 (increments between) := by
  induction es generalizing number with
  | nil => simp [readNumbers]
  | cons e es ih =>
    rw [exists_read_cons]
    cases e with
    | read t => simp [readNumbers, ih, increments]
    | increment t =>
      have hnext : ∀ n, number + 1#64 + BitVec.ofNat 64 n = number + BitVec.ofNat 64 (n + 1) := by
        intro n
        rw [BitVec.ofNat_add, BitVec.add_assoc, BitVec.add_comm 1#64]
      simp [readNumbers, ih, increments, hnext]
    | lock t | unlock t => simp [readNumbers, ih, increments]

theorem separated_cons :
    Separated (e :: es) ↔
      (∀ t, e = .read t → ∀ between t' after, es = between ++ .read t' :: after →
        ¬ 2 ^ 64 ∣ increments between) ∧ Separated es := by
  constructor
  · intro h
    refine ⟨?_, ?_⟩
    · rintro t rfl between t' after rfl
      exact h [] t between t' after rfl
    · rintro before t between t' after rfl
      exact h (e :: before) t between t' after rfl
  · rintro ⟨hfirst, hrest⟩ before t between t' after heq
    cases before with
    | nil =>
      obtain ⟨rfl, htail⟩ := List.cons.inj heq
      exact hfirst t rfl between t' after htail
    | cons e' before => exact hrest before t between t' after (List.cons.inj heq).2

theorem notMem_readNumbers_iff :
    number ∉ readNumbers number es ↔
      ∀ between t after, es = between ++ .read t :: after → ¬ 2 ^ 64 ∣ increments between := by
  have hround : ∀ n, number = number + BitVec.ofNat 64 n ↔ 2 ^ 64 ∣ n := by
    intro n
    rw [BitVec.toNat_eq, BitVec.toNat_add, BitVec.toNat_ofNat]
    have := number.isLt
    omega
  rw [mem_readNumbers]
  simp only [hround, not_exists, not_and]

theorem nodup_readNumbers_iff :
    (readNumbers number es).Nodup ↔ Separated es := by
  induction es generalizing number with
  | nil => simp [readNumbers, Separated]
  | cons e es ih =>
    rw [separated_cons]
    cases e with
    | read t => simp [readNumbers, ih, notMem_readNumbers_iff]
    | increment t | lock t | unlock t => simp [readNumbers, ih]

/-- No number is returned twice in a run just if the number changes between any two reads. -/
theorem getFreeInode_nodup_iff (h : freeInodeSystem.run System.AnyStep start es = some s) :
    s.returned.Nodup ↔ Separated es := by
  have hreturned : s.returned = readNumbers Db.inodeNumStart es := run_returned h
  rw [hreturned, nodup_readNumbers_iff]

def inTurn : List Event :=
  [.lock 0, .increment 0, .unlock 0, .read 0, .lock 1, .increment 1, .unlock 1, .read 1]

def overlapped : List Event :=
  [.lock 0, .increment 0, .unlock 0, .lock 1, .increment 1, .unlock 1, .read 0, .read 1]

theorem getFreeInode_inTurn :
    ∃ s, freeInodeSystem.run System.AnyStep start inTurn = some s ∧ s.returned = [3, 4] ∧
      Separated inTurn := by
  obtain ⟨s, hs⟩ : ∃ s, freeInodeSystem.run System.AnyStep start inTurn = some s := ⟨_, rfl⟩
  have hreturned : s.returned = [3, 4] := by
    rw [run_returned hs]
    decide
  refine ⟨s, hs, hreturned, (getFreeInode_nodup_iff hs).mp ?_⟩
  rw [hreturned]
  decide

theorem getFreeInode_twice :
    ∃ s, freeInodeSystem.run System.AnyStep start overlapped = some s ∧ s.returned = [4, 4] ∧
      ¬ s.returned.Nodup := by
  obtain ⟨s, hs⟩ : ∃ s, freeInodeSystem.run System.AnyStep start overlapped = some s := ⟨_, rfl⟩
  have hreturned : s.returned = [4, 4] := by
    rw [run_returned hs]
    decide
  refine ⟨s, hs, hreturned, ?_⟩
  rw [hreturned]
  decide

end SeamlessStack.Sfs.FreeInode

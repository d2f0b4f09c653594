import SeamlessStack.Lib.SharedLog
import SeamlessStack.Sfsd.Write

/-! The threads of the pool serve write requests at the same time. Nothing keeps another thread from
storing the inode between the read and the store of one. -/
namespace SeamlessStack.Sfsd

open Lib Function

variable {ω : Type}

/-- What `sstack_write` does between `get_inode` and `put_inode`. -/
def WriteRequest.change (h : Host) (r : WriteRequest) (inode : Inode) : Except Stop Inode := do
  require (r.nameLen = 0) .undefined
  let storage ← createFile h r inode
  require (r.offset = 0) .undefined
  require (0 ≤ r.stat.1) (.failed (some inode))
  updateInode h r { inode with numreplicas := 1 } storage

theorem sstackWrite_eq_change (h : Host) (db : Db) (r : WriteRequest) :
    sstackWrite h db r = (do
      require (r.inodeCache = true) (.failed none)
      require (db r.inodeNo ≠ none ∧ r.getInode = .found)
        (.failed (some (readInode db r.inodeNo r.getInode)))
      let inode ← r.change h (readInode db r.inodeNo .found)
      return ⟨r.stat.1, putInode db r inode,
        readInode (putInode db r inode) r.inodeNo r.reread⟩) := by
  unfold sstackWrite WriteRequest.change
  simp only [bind_assoc]

/-- The database, and for every thread the inode it has read. The rest is history: how many extents
the inode had then, all extents ever stored, and whether an inode was stored after others had stored
it behind its read. -/
structure Workers (ω : Type) where
  start : Db
  db : Db
  running : ω → Option (WriteRequest × Inode × ℕ)
  added : ℕ → List Extent
  overtaken : ℕ → Bool

inductive WorkerEvent (ω : Type)
  | begins (w : ω) (r : WriteRequest)
  | ends (w : ω)

namespace Workers
variable [DecidableEq ω]

/-- A thread takes a request and reads the inode, or fails to. -/
def begins (s : Workers ω) (w : ω) (r : WriteRequest) : Option (Workers ω) :=
  if s.running w ≠ none then none
  else if r.inodeCache = true ∧ s.db r.inodeNo ≠ none ∧ r.getInode = .found then
    some { s with
      running := update s.running w
        (some (r, readInode s.db r.inodeNo .found, (s.added r.inodeNo).length)) }
  else some s

def leaves (s : Workers ω) (w : ω) : Workers ω :=
  { s with running := update s.running w none }

/-- The inode is stored, if `put_inode` succeeds. -/
def stores (s : Workers ω) (w : ω) (r : WriteRequest) (seen inode : Inode) (version : ℕ) :
    Workers ω :=
  if r.put then
    { s.leaves w with
      db := putInode s.db r inode
      added := update s.added r.inodeNo
        (s.added r.inodeNo ++ inode.extents.drop seen.extents.length)
      overtaken := update s.overtaken r.inodeNo
        (s.overtaken r.inodeNo || version != (s.added r.inodeNo).length) }
  else s.leaves w

/-- A request that waits or is not defined never ends. -/
def ends (h : Host) (s : Workers ω) (w : ω) : Option (Workers ω) :=
  match s.running w with
  | none => none
  | some (r, seen, version) =>
    match r.change h seen with
    | .ok inode => some (s.stores w r seen inode version)
    | .error (.failed _) => some (s.leaves w)
    | .error _ => none

def system (ω : Type) [DecidableEq ω] (h : Host) : System (Workers ω) (WorkerEvent ω) where
  init s := s.start = s.db ∧ s.running = (fun _ => none) ∧ s.added = (fun _ => []) ∧
    s.overtaken = fun _ => false
  step s
    | .begins w r => s.begins w r
    | .ends w => s.ends h w

/-- The scheduler gives a chunk to every request. -/
def Scheduled : Workers ω → WorkerEvent ω → Prop
  | _, .begins _ r => r.schedule ≠ none
  | _, .ends _ => True

instance : ∀ (s : Workers ω) (e : WorkerEvent ω), Decidable (Scheduled s e)
  | _, .begins _ r => inferInstanceAs (Decidable (r.schedule ≠ none))
  | _, .ends _ => inferInstanceAs (Decidable True)

end Workers

def extentsOf (db : Db) (n : ℕ) : List Extent := (db n).elim [] (·.extents)

/-- The extents of one inode, as a list that the threads read and write as a whole. -/
def Workers.view (s : Workers ω) (n : ℕ) : SharedLog.State ω Extent where
  stored := extentsOf s.db n
  held w := (s.running w).bind fun p =>
    if p.1.inodeNo = n then some (p.2.1.extents, p.2.2) else none
  added := s.added n
  overtaken := s.overtaken n

section Steps
variable [DecidableEq ω] {h : Host} {s t : Workers ω} {w : ω} {r : WriteRequest}
  {seen inode : Inode}
  {version : ℕ}

theorem change_extents (hschedule : r.schedule ≠ none) (hchange : r.change h seen = .ok inode) :
    ∃ e, inode.extents = seen.extents ++ [e] := by
  unfold WriteRequest.change at hchange
  obtain ⟨_, -, hchange⟩ := bind_eq_ok.mp hchange
  obtain ⟨storage, hstorage, hchange⟩ := bind_eq_ok.mp hchange
  obtain ⟨_, -, hchange⟩ := bind_eq_ok.mp hchange
  obtain ⟨_, -, hchange⟩ := bind_eq_ok.mp hchange
  obtain ⟨hnone, -⟩ | ⟨c, chunk, -, -, -, rfl⟩ := createFile_eq_ok.mp hstorage
  · exact absurd hnone hschedule
  · obtain ⟨inode', hadd, hupdate⟩ := bind_eq_ok.mp hchange
    obtain rfl := Except.ok.inj hupdate
    obtain ⟨-, -, -, e, -, rfl⟩ := addExtent_eq_ok.mp hadd
    exact ⟨e, rfl⟩

theorem extentsOf_readInode (db : Db) (n : ℕ) :
    (readInode db n .found).extents = extentsOf db n := by
  unfold readInode extentsOf
  cases db n with
  | none | some inode => rfl

theorem view_leaves (s : Workers ω) (w : ω) (n : ℕ) : (s.leaves w).view n = (s.view n).leave w := by
  have hheld : ((s.leaves w).view n).held = update (s.view n).held w none := by
    funext v
    by_cases hv : v = w
    · subst hv
      simp [Workers.view, Workers.leaves]
    · simp [Workers.view, Workers.leaves, update_of_ne hv]
  unfold SharedLog.State.leave
  rw [← hheld]
  rfl

theorem view_begins (hbegins : s.begins w r = some t) (n : ℕ) :
    t.view n = (s.view n).read w ∨ t.view n = s.view n := by
  unfold Workers.begins at hbegins
  split_ifs at hbegins with hrunning
  · rw [not_not] at hrunning
    obtain rfl := Option.some.inj hbegins
    by_cases hn : r.inodeNo = n
    · subst hn
      refine .inl ?_
      have hheld : ∀ v, Option.bind (update s.running w
          (some (r, readInode s.db r.inodeNo .found, (s.added r.inodeNo).length)) v)
          (fun p => if p.1.inodeNo = r.inodeNo then some (p.2.1.extents, p.2.2) else none) =
          update (s.view r.inodeNo).held w
            (some (extentsOf s.db r.inodeNo, (s.added r.inodeNo).length)) v := by
        intro v
        by_cases hv : v = w
        · subst hv
          simp [extentsOf_readInode]
        · simp [Workers.view, update_of_ne hv]
      unfold SharedLog.State.read
      unfold Workers.view at hheld ⊢
      simp only [SharedLog.State.mk.injEq, true_and, and_true]
      exact funext hheld
    · refine .inr ?_
      unfold Workers.view
      simp only [SharedLog.State.mk.injEq, true_and, and_true]
      funext v
      by_cases hv : v = w
      · subst hv
        simp [hn, hrunning]
      · simp [update_of_ne hv]
  · obtain rfl := Option.some.inj hbegins
    exact .inr rfl

theorem view_stores_self {e : Extent} (hput : r.put = true)
    (hextents : inode.extents = seen.extents ++ [e]) :
    (s.stores w r seen inode version).view r.inodeNo =
      (s.view r.inodeNo).append w e seen.extents version := by
  have hleaves := congrArg SharedLog.State.held (view_leaves s w r.inodeNo)
  unfold Workers.stores
  rw [if_pos hput]
  unfold SharedLog.State.append
  unfold Workers.view at hleaves ⊢
  simp only [SharedLog.State.mk.injEq]
  refine ⟨?_, hleaves, ?_, ?_⟩
  · simp [extentsOf, putInode, hput, hextents]
  · simp [hextents]
  · simp

theorem view_stores_of_ne {n : ℕ} (hn : n ≠ r.inodeNo) :
    (s.stores w r seen inode version).view n = (s.leaves w).view n := by
  by_cases hput : r.put = true
  · have hdb : putInode s.db r inode n = s.db n := by
      unfold putInode
      rw [if_pos hput, update_of_ne hn]
    unfold Workers.stores
    rw [if_pos hput]
    unfold Workers.view
    simp only [SharedLog.State.mk.injEq, Workers.leaves, update_of_ne hn, and_true]
    unfold extentsOf
    rw [hdb]
  · unfold Workers.stores
    rw [if_neg hput]

end Steps

/-- What holds along every run in which all requests get a chunk. -/
structure Workers.Traced (s : Workers ω) : Prop where
  scheduled : ∀ w r seen version, s.running w = some (r, seen, version) → r.schedule ≠ none
  view : ∀ n, SharedLog.Traced (extentsOf s.start n) (s.view n)

section Runs
variable [DecidableEq ω] {h : Host} {s t : Workers ω} {w : ω} {r : WriteRequest}

theorem Workers.Traced.begins (hs : s.Traced) (hr : r.schedule ≠ none)
    (hbegins : s.begins w r = some t) : t.Traced := by
  have hstart : t.start = s.start := by
    unfold Workers.begins at hbegins
    split_ifs at hbegins <;> obtain rfl := Option.some.inj hbegins <;> rfl
  refine ⟨?_, ?_⟩
  · intro v r' seen version hv
    unfold Workers.begins at hbegins
    split_ifs at hbegins
    · obtain rfl := Option.some.inj hbegins
      dsimp only at hv
      rw [update_apply] at hv
      split at hv
      · cases hv
        exact hr
      · exact hs.scheduled v r' seen version hv
    · obtain rfl := Option.some.inj hbegins
      exact hs.scheduled v r' seen version hv
  · intro n
    rw [hstart]
    obtain hview | hview := view_begins hbegins n
    · rw [hview]
      exact (hs.view n).read w
    · rw [hview]
      exact hs.view n

theorem Workers.Traced.leaves (hs : s.Traced) (w : ω) : (s.leaves w).Traced := by
  refine ⟨?_, ?_⟩
  · intro v r' seen version hv
    unfold Workers.leaves at hv
    dsimp only at hv
    rw [update_apply] at hv
    split at hv
    · cases hv
    · exact hs.scheduled v r' seen version hv
  · intro n
    rw [view_leaves]
    exact (hs.view n).leave w

theorem Workers.Traced.stores (hs : s.Traced) {seen inode : Inode} {version : ℕ}
    (hw : s.running w = some (r, seen, version)) (hchange : r.change h seen = .ok inode) :
    (s.stores w r seen inode version).Traced := by
  have hleaves := hs.leaves w
  by_cases hput : r.put = true
  · have hrunning : (s.stores w r seen inode version).running = (s.leaves w).running := by
      unfold Workers.stores
      rw [if_pos hput]
    have hstart : (s.stores w r seen inode version).start = s.start := by
      unfold Workers.stores
      rw [if_pos hput]
      rfl
    refine ⟨?_, ?_⟩
    · rw [hrunning]
      exact hleaves.scheduled
    · intro n
      rw [hstart]
      by_cases hn : n = r.inodeNo
      · subst hn
        obtain ⟨e, hextents⟩ := change_extents (hs.scheduled w r seen version hw) hchange
        rw [view_stores_self hput hextents]
        refine (hs.view r.inodeNo).append ?_ e
        simp [Workers.view, hw]
      · rw [view_stores_of_ne hn]
        exact hleaves.view n
  · unfold Workers.stores
    rw [if_neg hput]
    exact hleaves

theorem workers_traced (hs : (Workers.system ω h).Reach Workers.Scheduled s) : s.Traced := by
  refine System.Reach.invariant ?_ ?_ hs
  · rintro s ⟨hstart, hrunning, hadded, hovertaken⟩
    refine ⟨by simp [hrunning], ?_⟩
    intro n
    rw [hstart]
    refine SharedLog.Traced.start (s := s.view n) ?_ ?_ ?_
    · simp [Workers.view, hrunning]
    · exact congrFun hadded n
    · exact congrFun hovertaken n
  · rintro s (⟨w, r⟩ | w) t - hs hguard hstep
    · exact hs.begins hguard hstep
    · change s.ends h w = some t at hstep
      unfold Workers.ends at hstep
      split at hstep
      · cases hstep
      rename_i r seen version hw
      split at hstep
      · rename_i inode hchange
        obtain rfl := Option.some.inj hstep
        exact hs.stores hw hchange
      · obtain rfl := Option.some.inj hstep
        exact hs.leaves w
      · cases hstep

/-- In every interleaving, the extents ever stored for an inode are all there exactly if no thread
stored it after another one had done so behind its read. -/
theorem extents_kept_iff (hs : (Workers.system ω h).Reach Workers.Scheduled s) (n : ℕ) :
    extentsOf s.db n = extentsOf s.start n ++ s.added n ↔ s.overtaken n = false :=
  ((workers_traced hs).view n).stored_eq_iff

def twoWorkers : Workers Bool :=
  ⟨emptyInodes.db, emptyInodes.db, fun _ => none, fun _ => [], fun _ => false⟩

def overlap : List (WorkerEvent Bool) :=
  [.begins true (goodRequest 2 5 0 10), .begins false (goodRequest 2 7 0 11), .ends true,
    .ends false]

/-- The first extent is lost. -/
theorem extents_kept_iff_overlap :
    ∃ s, (Workers.system Bool (oneChunk false)).run Workers.Scheduled twoWorkers overlap = some s ∧
      (s.added 2).length = 2 ∧ (extentsOf s.db 2).length = 1 ∧
      (extentsOf s.db 2 = extentsOf s.start 2 ++ s.added 2 ↔ s.overtaken 2 = false) := by
  have hinit : (Workers.system Bool (oneChunk false)).init twoWorkers := ⟨rfl, rfl, rfl, rfl⟩
  have hrun : ∃ s, (Workers.system Bool (oneChunk false)).run Workers.Scheduled twoWorkers overlap =
      some s ∧ (s.added 2).length = 2 ∧ (extentsOf s.db 2).length = 1 := ⟨_, rfl, rfl, rfl⟩
  obtain ⟨s, hs, hadded, hstored⟩ := hrun
  exact ⟨s, hs, hadded, hstored, extents_kept_iff (System.Reach.run (.init hinit) hs) 2⟩

end Runs

end SeamlessStack.Sfsd

import SeamlessStack.Jobs.Calls
import SeamlessStack.Lib.LeftLeaningRemove

/-! `jobid_tree` and `jobmap_tree` as the functions generated by `rb.h` keep them: whatever is
inserted and removed, a search finds in the tree what it finds in the list of nodes. -/
namespace SeamlessStack.Jobs.Trees

open Lib Lib.LeftLeaning

def efault : ℤ := 14
def jtnodeMagic : BitVec 32 := 0xa5a5a5a5
def jmnodeMagic : BitVec 32 := 0x5a5a5a5a

/-- What a comparison looks at: the magic number and a key, which is unsigned in both trees. -/
structure NodeKey where
  magic : BitVec 32
  key : ℕ
  deriving DecidableEq, Repr

/-- `struct job2thread_tree` without the links. The key is `job_id`. -/
structure JtNode extends NodeKey where
  threadId : ℕ
  job : ℕ
  deriving DecidableEq, Repr

/-- `struct jobmap_tree_node` without the links. The key is `thread_id`. -/
structure JmNode extends NodeKey where
  jobMap : ℕ
  deriving DecidableEq, Repr

/-- The two comparisons, which differ in the magic number. -/
def treeCmp (magic : BitVec 32) (node1 node2 : NodeKey) : ℤ :=
  if node1.magic ≠ magic ∨ node2.magic ≠ magic then efault
  else (if node1.key > node2.key then 1 else 0) - (if node1.key < node2.key then 1 else 0)

def jobidTreeCmp (node1 node2 : NodeKey) : ℤ := treeCmp jtnodeMagic node1 node2

def jobmapTreeCmp (node1 node2 : NodeKey) : ℤ := treeCmp jmnodeMagic node1 node2

structure JobTrees where
  jobidTree : RbTree JtNode
  jobmapTree : RbTree JmNode

namespace JobTrees

def init : JobTrees := ⟨.nil, .nil⟩

def jobidTreeSearch (s : JobTrees) (jobId : ℕ) : Option JtNode :=
  search (fun node => jobidTreeCmp ⟨jtnodeMagic, jobId⟩ node.toNodeKey) s.jobidTree

def jobmapTreeSearch (s : JobTrees) (threadId : ℕ) : Option JmNode :=
  search (fun node => jobmapTreeCmp ⟨jmnodeMagic, threadId⟩ node.toNodeKey) s.jobmapTree

/-- The result and the trees, or `none` if an assertion fails; `allocated`: memory for the node. -/
def sfsJob2threadMapInsert (s : JobTrees) (threadId jobId job : ℕ) (allocated : Bool) :
    Option (ℤ × JobTrees) :=
  if allocated then
    let node : JtNode := ⟨⟨jtnodeMagic, jobId⟩, threadId, job⟩
    (insertNew (fun other => jobidTreeCmp node.toNodeKey other.toNodeKey) node s.jobidTree).map
      fun jobidTree => (0, { s with jobidTree })
  else some (-1, s)

/-- What `errno` is set to, and the trees. -/
def sfsJob2threadMapRemove (s : JobTrees) (jobId : ℕ) : Option (ℤ × JobTrees) :=
  match s.jobidTreeSearch jobId with
  | none => some (efault, s)
  | some node =>
    (remove (fun other => jobidTreeCmp node.toNodeKey other.toNodeKey) node s.jobidTree).map
      fun jobidTree => (0, { s with jobidTree })

/-- A null `job_map` is refused. -/
def sfsJobContextInsert (s : JobTrees) (threadId : ℕ) (jobMap : Option ℕ) (allocated : Bool) :
    Option (ℤ × JobTrees) :=
  match jobMap with
  | none => some (-1, s)
  | some jobMap =>
    if allocated then
      let node : JmNode := ⟨⟨jmnodeMagic, threadId⟩, jobMap⟩
      (insertNew (fun other => jobmapTreeCmp node.toNodeKey other.toNodeKey) node
        s.jobmapTree).map fun jobmapTree => (0, { s with jobmapTree })
    else some (-1, s)

def sfsJobContextRemove (s : JobTrees) (threadId : ℕ) : Option (ℤ × JobTrees) :=
  match s.jobmapTreeSearch threadId with
  | none => some (efault, s)
  | some node =>
    (remove (fun other => jobmapTreeCmp node.toNodeKey other.toNodeKey) node s.jobmapTree).map
      fun jobmapTree => (0, { s with jobmapTree })

end JobTrees

/-- What threads do to the trees. Each call works under the lock of its tree. -/
inductive TreeCall
  | mapInsert (threadId : ℕ) (id : Option ℕ) (job : ℕ) (allocated : Bool)
  | mapRemove (key : ℕ)
  | contextInsert (threadId : ℕ) (jobMap : Option ℕ) (allocated : Bool)
  | contextRemove (threadId : ℕ)
  deriving DecidableEq, Repr

def JobTrees.call (s : JobTrees) : TreeCall → Option (ℤ × JobTrees)
  | .mapInsert threadId id job allocated =>
    s.sfsJob2threadMapInsert threadId (jobKey id) job allocated
  | .mapRemove key => s.sfsJob2threadMapRemove key
  | .contextInsert threadId jobMap allocated => s.sfsJobContextInsert threadId jobMap allocated
  | .contextRemove threadId => s.sfsJobContextRemove threadId

/-- The results of the calls and the trees after them, or `none` if an assertion failed. -/
def JobTrees.run (s : JobTrees) : List TreeCall → Option (List ℤ × JobTrees)
  | [] => some ([], s)
  | c :: calls => match s.call c with
    | none => none
    | some (code, s') => (s'.run calls).map fun result => (code :: result.1, result.2)

/-- The same call where the trees are lists. -/
def TreeCall.apply (p : Process) : TreeCall → Process
  | .mapInsert _ id job allocated => if allocated then p.job2threadMapInsert id job else p
  | .mapRemove key => p.job2threadMapRemove key
  | .contextInsert threadId jobMap allocated =>
    if jobMap.isSome ∧ allocated then p.jobContextInsert threadId else p
  | .contextRemove threadId => p.jobContextRemove threadId

/-- What the call should answer: an insertion fails without memory or a map, a removal of an absent
key sets `EFAULT`. -/
def TreeCall.answer (p : Process) : TreeCall → ℤ
  | .mapInsert _ _ _ allocated => if allocated then 0 else -1
  | .mapRemove key => if key ∈ p.jobidTree.map Prod.fst then 0 else efault
  | .contextInsert _ jobMap allocated => if jobMap.isSome ∧ allocated then 0 else -1
  | .contextRemove threadId => if threadId ∈ p.jobmapTree then 0 else efault

/-- The answers of the calls and the process after them, or `none` if it has ended. -/
def applyAll (p : Process) : List TreeCall → Option (List ℤ × Process)
  | [] => some ([], p)
  | c :: calls =>
    if (c.apply p).dead then none
    else (applyAll (c.apply p) calls).map fun result => (c.answer p :: result.1, result.2)

section Nodes
variable {α : Type} {nodeKey : α → NodeKey} {magic : BitVec 32} {t : RbTree α} {z : α} {k : ℕ}

/-- A tree that the calls have made, of nodes with the magic number. -/
structure Marked (nodeKey : α → NodeKey) (magic : BitVec 32) (t : RbTree α) : Prop where
  kept : Kept (fun x => (nodeKey x).key) t
  magic : ∀ x ∈ t.toList, (nodeKey x).magic = magic

theorem marked_nil (nodeKey : α → NodeKey) (magic : BitVec 32) : Marked nodeKey magic .nil :=
  ⟨kept_nil _, fun x hx => by simp [RbTree.toList] at hx⟩

theorem Marked.compares (h : Marked nodeKey magic t) (k : ℕ) :
    Compares (fun x => (nodeKey x).key) k (fun x => treeCmp magic ⟨magic, k⟩ (nodeKey x)) t := by
  intro x hx
  have hmagic : ¬ (magic ≠ magic ∨ (nodeKey x).magic ≠ magic) := by simp [h.magic x hx]
  simp only [treeCmp, if_neg hmagic]
  constructor <;> split_ifs <;> omega

def found (nodeKey : α → NodeKey) (magic : BitVec 32) (t : RbTree α) (k : ℕ) : Option α :=
  search (fun x => treeCmp magic ⟨magic, k⟩ (nodeKey x)) t

theorem Marked.found_iff (h : Marked nodeKey magic t) {x : α} :
    found nodeKey magic t k = some x ↔ x ∈ t.toList ∧ (nodeKey x).key = k :=
  search_eq_some_iff h.kept.sorted (h.compares k)

theorem Marked.found_none (h : Marked nodeKey magic t) :
    found nodeKey magic t k = none ↔ ∀ x ∈ t.toList, (nodeKey x).key ≠ k := by
  constructor
  · intro hnone x hx hk
    have hsome := h.found_iff.mpr ⟨hx, hk⟩
    rw [hnone] at hsome
    cases hsome
  · intro hall
    by_contra hne
    obtain ⟨x, hx⟩ := Option.ne_none_iff_exists'.mp hne
    obtain ⟨hmem, hk⟩ := h.found_iff.mp hx
    exact hall x hmem hk

theorem Marked.found_congr {u : RbTree α} (ht : Marked nodeKey magic t)
    (hu : Marked nodeKey magic u)
    (hsame : ∀ x, (nodeKey x).key = k → (x ∈ u.toList ↔ x ∈ t.toList)) :
    found nodeKey magic u k = found nodeKey magic t k := by
  apply Option.ext
  intro x
  rw [hu.found_iff, ht.found_iff]
  constructor
  · rintro ⟨hx, hk⟩
    exact ⟨(hsame x hk).mp hx, hk⟩
  · rintro ⟨hx, hk⟩
    exact ⟨(hsame x hk).mpr hx, hk⟩

/-- An assertion fails if the key is there. Otherwise a search finds the node afterwards. -/
theorem Marked.insertNew (h : Marked nodeKey magic t) (hz : nodeKey z = ⟨magic, k⟩) :
    match LeftLeaning.insertNew (fun x => treeCmp magic (nodeKey z) (nodeKey x)) z t with
    | none => found nodeKey magic t k ≠ none
    | some t' => found nodeKey magic t k = none ∧ Marked nodeKey magic t' ∧
        ∀ k', found nodeKey magic t' k' =
          if k' = k then some z else found nodeKey magic t k' := by
  have hkz : (nodeKey z).key = k := by rw [hz]
  have hcmp := h.compares k
  rw [← hz] at hcmp
  have hsearch : search (fun x => treeCmp magic (nodeKey z) (nodeKey x)) t =
      found nodeKey magic t k := by rw [found, hz]
  unfold LeftLeaning.insertNew
  rw [hsearch]
  cases hfound : found nodeKey magic t k with
  | some x => simp
  | none =>
    have hnew := h.found_none.mp hfound
    have hmem : ∀ x, x ∈ (insert (fun x => treeCmp magic (nodeKey z) (nodeKey x)) z t).toList ↔
        x = z ∨ x ∈ t.toList := by
      intro x
      rw [(insert_perm _ z t).mem_iff, List.mem_cons]
    have hmarked : Marked nodeKey magic
        (insert (fun x => treeCmp magic (nodeKey z) (nodeKey x)) z t) := by
      refine ⟨h.kept.insert (by rwa [hkz]) (by rwa [hkz]), fun x hx => ?_⟩
      obtain rfl | hx := (hmem x).mp hx
      · rw [hz]
      · exact h.magic x hx
    refine ⟨rfl, hmarked, fun k' => ?_⟩
    split_ifs with hk'
    · exact hmarked.found_iff.mpr ⟨(hmem z).mpr (.inl rfl), hkz.trans hk'.symm⟩
    · refine h.found_congr hmarked fun x hx => ?_
      rw [hmem]
      refine or_iff_right ?_
      rintro rfl
      exact hk' (hx.symm.trans hkz)

/-- The node that was found is removed, and no other. -/
theorem Marked.remove [DecidableEq α] (h : Marked nodeKey magic t)
    (hfound : found nodeKey magic t k = some z) :
    ∃ t', LeftLeaning.remove (fun x => treeCmp magic (nodeKey z) (nodeKey x)) z t = some t' ∧
      Marked nodeKey magic t' ∧
      ∀ k', found nodeKey magic t' k' = if k' = k then none else found nodeKey magic t k' := by
  obtain ⟨hz, hkz⟩ := h.found_iff.mp hfound
  have hnode : nodeKey z = ⟨magic, (nodeKey z).key⟩ := by rw [← h.magic z hz]
  have hcmp := h.compares (nodeKey z).key
  rw [← hnode] at hcmp
  obtain ⟨t', hremove, hkept, hmem⟩ := h.kept.remove hcmp hz
  have hmarked : Marked nodeKey magic t' := ⟨hkept, fun x hx => h.magic x ((hmem x).mp hx).1⟩
  refine ⟨t', hremove, hmarked, fun k' => ?_⟩
  split_ifs with hk'
  · refine hmarked.found_none.mpr fun x hx hkx => ((hmem x).mp hx).2 ?_
    exact (hkx.trans hk').trans hkz.symm
  · refine h.found_congr hmarked fun x hx => ?_
    rw [hmem]
    refine and_iff_left fun hkx => hk' ?_
    exact hx.symm.trans (hkx.trans hkz)

end Nodes

/-- The trees hold the nodes that the lists of the process hold. -/
structure Refines (s : JobTrees) (p : Process) : Prop where
  jobid : Marked JtNode.toNodeKey jtnodeMagic s.jobidTree
  jobmap : Marked JmNode.toNodeKey jmnodeMagic s.jobmapTree
  jobs : ∀ key, (s.jobidTreeSearch key).map JtNode.job = p.jobidTree.lookup key
  threads : ∀ threadId, s.jobmapTreeSearch threadId ≠ none ↔ threadId ∈ p.jobmapTree

theorem refines_init : Refines .init .init where
  jobid := marked_nil _ _
  jobmap := marked_nil _ _
  jobs _ := rfl
  threads threadId := by simp [JobTrees.init, JobTrees.jobmapTreeSearch, search, Process.init]

theorem lookup_filter (l : List (ℕ × ℕ)) (key key' : ℕ) :
    (l.filter fun n => n.1 ≠ key).lookup key' = if key' = key then none else l.lookup key' := by
  induction l with
  | nil => simp
  | cons n l ih =>
    obtain ⟨k, job⟩ := n
    by_cases hk : k = key
    · subst hk
      rw [List.filter_cons_of_neg (by simp), ih]
      split_ifs with hk'
      · rfl
      · rw [List.lookup_cons, beq_eq_false_iff_ne.mpr hk']
    · rw [List.filter_cons_of_pos (by simpa using hk), List.lookup_cons, List.lookup_cons, ih]
      by_cases hkk : key' = k
      · subst hkk
        simp [hk]
      · rw [beq_eq_false_iff_ne.mpr hkk]

theorem lookup_eq_none (l : List (ℕ × ℕ)) (key : ℕ) :
    l.lookup key = none ↔ key ∉ l.map Prod.fst := by
  rw [List.lookup_eq_none_iff, List.mem_map]
  constructor
  · rintro h ⟨n, hn, rfl⟩
    simpa using h n hn
  · intro h n hn
    rw [bne_iff_ne]
    exact fun heq => h ⟨n, hn, heq.symm⟩

variable {s : JobTrees} {p : Process}

theorem Refines.jobid_none_iff (h : Refines s p) (key : ℕ) :
    s.jobidTreeSearch key = none ↔ key ∉ p.jobidTree.map Prod.fst := by
  rw [← lookup_eq_none, ← h.jobs, Option.map_eq_none_iff]

def Simulates (p : Process) (c : TreeCall) : Option (ℤ × JobTrees) → Prop
  | none => (c.apply p).dead = true
  | some (code, s') => (c.apply p).dead = false ∧ code = c.answer p ∧ Refines s' (c.apply p)

theorem Refines.mapInsert (h : Refines s p) (halive : p.dead = false) (threadId : ℕ)
    (id : Option ℕ) (job : ℕ) (allocated : Bool) :
    Simulates p (.mapInsert threadId id job allocated)
      (s.call (.mapInsert threadId id job allocated)) := by
  cases allocated with
  | false => exact ⟨halive, rfl, h⟩
  | true =>
    have hinsert := h.jobid.insertNew (z := ⟨⟨jtnodeMagic, jobKey id⟩, threadId, job⟩) rfl
    simp only [JobTrees.call, JobTrees.sfsJob2threadMapInsert, if_true, jobidTreeCmp]
    split at hinsert
    · rename_i heq
      have hin : jobKey id ∈ p.jobidTree.map Prod.fst := by
        by_contra hnot
        exact hinsert ((h.jobid_none_iff _).mpr hnot)
      simp [heq, Simulates, TreeCall.apply, Process.job2threadMapInsert, hin, Process.die]
    · rename_i t' heq
      obtain ⟨hnone, hmarked, hfound⟩ := hinsert
      have hnot := (h.jobid_none_iff _).mp hnone
      rw [heq]
      simp only [Option.map_some, Simulates, TreeCall.apply, if_true,
        Process.job2threadMapInsert, if_neg hnot]
      refine ⟨halive, rfl, hmarked, h.jobmap, fun key => ?_, h.threads⟩
      have hkey : JobTrees.jobidTreeSearch { s with jobidTree := t' } key = _ := hfound key
      rw [hkey, List.lookup_cons]
      split_ifs with hk
      · simp [hk]
      · rw [beq_eq_false_iff_ne.mpr hk]
        exact h.jobs key

theorem Refines.contextInsert (h : Refines s p) (halive : p.dead = false) (threadId : ℕ)
    (jobMap : Option ℕ) (allocated : Bool) :
    Simulates p (.contextInsert threadId jobMap allocated)
      (s.call (.contextInsert threadId jobMap allocated)) := by
  match jobMap, allocated with
  | none, _ | some _, false => exact ⟨halive, rfl, h⟩
  | some jobMap, true =>
    have hinsert := h.jobmap.insertNew (z := ⟨⟨jmnodeMagic, threadId⟩, jobMap⟩) rfl
    simp only [JobTrees.call, JobTrees.sfsJobContextInsert, if_true, jobmapTreeCmp]
    split at hinsert
    · rename_i heq
      have hin : threadId ∈ p.jobmapTree := (h.threads threadId).mp hinsert
      simp [heq, Simulates, TreeCall.apply, Process.jobContextInsert, hin, Process.die]
    · rename_i t' heq
      obtain ⟨hnone, hmarked, hfound⟩ := hinsert
      have hnot : threadId ∉ p.jobmapTree := fun hin => (h.threads threadId).mpr hin hnone
      rw [heq]
      simp only [Option.map_some, Simulates, TreeCall.apply, TreeCall.answer, Option.isSome_some,
        and_self, if_true, Process.jobContextInsert, if_neg hnot]
      refine ⟨halive, trivial, h.jobid, hmarked, h.jobs, fun threadId' => ?_⟩
      have hthread : JobTrees.jobmapTreeSearch { s with jobmapTree := t' } threadId' = _ :=
        hfound threadId'
      rw [hthread, List.mem_cons, ← h.threads]
      split_ifs with hk
      · simp [hk]
      · exact (or_iff_right hk).symm

theorem Refines.mapRemove (h : Refines s p) (halive : p.dead = false) (key : ℕ) :
    Simulates p (.mapRemove key) (s.call (.mapRemove key)) := by
  simp only [JobTrees.call, JobTrees.sfsJob2threadMapRemove]
  cases hsearch : s.jobidTreeSearch key with
  | none =>
    have hnot := (h.jobid_none_iff key).mp hsearch
    refine ⟨halive, (if_neg hnot).symm, h.jobid, h.jobmap, fun key' => ?_, h.threads⟩
    rw [h.jobs, TreeCall.apply, Process.job2threadMapRemove, lookup_filter]
    split_ifs with hk
    · exact hk ▸ (lookup_eq_none _ _).mpr hnot
    · rfl
  | some node =>
    have hin : key ∈ p.jobidTree.map Prod.fst := by
      by_contra hnot
      rw [(h.jobid_none_iff key).mpr hnot] at hsearch
      cases hsearch
    obtain ⟨t', hremove, hmarked, hfound⟩ := h.jobid.remove hsearch
    simp only [jobidTreeCmp, hremove, Option.map_some]
    refine ⟨halive, (if_pos hin).symm, hmarked, h.jobmap, fun key' => ?_, h.threads⟩
    have hkey : JobTrees.jobidTreeSearch { s with jobidTree := t' } key' = _ := hfound key'
    rw [hkey, TreeCall.apply, Process.job2threadMapRemove, lookup_filter]
    split_ifs with hk
    · rfl
    · exact h.jobs key'

theorem Refines.contextRemove (h : Refines s p) (halive : p.dead = false) (threadId : ℕ) :
    Simulates p (.contextRemove threadId) (s.call (.contextRemove threadId)) := by
  have hmem : ∀ threadId', threadId' ∈ (TreeCall.apply p (.contextRemove threadId)).jobmapTree ↔
      threadId' ∈ p.jobmapTree ∧ threadId' ≠ threadId := by
    intro threadId'
    simp [TreeCall.apply, Process.jobContextRemove]
  simp only [JobTrees.call, JobTrees.sfsJobContextRemove]
  cases hsearch : s.jobmapTreeSearch threadId with
  | none =>
    have hnot : threadId ∉ p.jobmapTree := fun hin => (h.threads threadId).mpr hin hsearch
    refine ⟨halive, (if_neg hnot).symm, h.jobid, h.jobmap, h.jobs, fun threadId' => ?_⟩
    rw [hmem, h.threads]
    refine (and_iff_left_of_imp fun hin => ?_).symm
    rintro rfl
    exact hnot hin
  | some node =>
    have hin : threadId ∈ p.jobmapTree := (h.threads threadId).mp (by simp [hsearch])
    obtain ⟨t', hremove, hmarked, hfound⟩ := h.jobmap.remove hsearch
    simp only [jobmapTreeCmp, hremove, Option.map_some]
    refine ⟨halive, (if_pos hin).symm, h.jobid, hmarked, h.jobs, fun threadId' => ?_⟩
    have hthread : JobTrees.jobmapTreeSearch { s with jobmapTree := t' } threadId' = _ :=
      hfound threadId'
    rw [hthread, hmem, ← h.threads]
    split_ifs with hk
    · simp [hk]
    · exact (and_iff_left hk).symm

theorem Refines.call (h : Refines s p) (halive : p.dead = false) (c : TreeCall) :
    Simulates p c (s.call c) := by
  cases c with
  | mapInsert threadId id job allocated => exact h.mapInsert halive threadId id job allocated
  | mapRemove key => exact h.mapRemove halive key
  | contextInsert threadId jobMap allocated =>
    exact h.contextInsert halive threadId jobMap allocated
  | contextRemove threadId => exact h.contextRemove halive threadId

def RunsAlike : Option (List ℤ × JobTrees) → Option (List ℤ × Process) → Prop
  | none, none => True
  | some (codes, s), some (answers, p) => codes = answers ∧ Refines s p
  | _, _ => False

theorem Refines.run (h : Refines s p) (halive : p.dead = false) (calls : List TreeCall) :
    RunsAlike (s.run calls) (applyAll p calls) := by
  induction calls generalizing s p with
  | nil => exact ⟨rfl, h⟩
  | cons c calls ih =>
    have hstep := h.call halive c
    rw [JobTrees.run, applyAll]
    cases hcall : s.call c with
    | none =>
      rw [hcall] at hstep
      have hdead : (c.apply p).dead = true := hstep
      rw [if_pos hdead]
      trivial
    | some result =>
      obtain ⟨code, s'⟩ := result
      rw [hcall] at hstep
      obtain ⟨halive', rfl, hrefines⟩ := hstep
      have hrun := ih hrefines halive'
      rw [if_neg (by simp [halive'])]
      dsimp only
      cases hs : s'.run calls with
      | none =>
        cases hp : applyAll (c.apply p) calls with
        | none => trivial
        | some answers =>
          rw [hs, hp] at hrun
          exact hrun.elim
      | some codes =>
        cases hp : applyAll (c.apply p) calls with
        | none =>
          rw [hs, hp] at hrun
          exact hrun.elim
        | some answers =>
          rw [hs, hp] at hrun
          exact ⟨congrArg _ hrun.1, hrun.2⟩

def pathEntries : ℕ := 128

/-- From empty trees, every sequence of calls by any threads fails an assertion exactly if it does
on lists of nodes, and otherwise gives the same results and trees. -/
theorem jobTrees_refine (calls : List TreeCall) :
    RunsAlike (JobTrees.init.run calls) (applyAll .init calls) :=
  refines_init.run rfl calls

/-- No way down that is noted overruns its array of `path` entries while a tree has fewer than `2 ^
64 - 1` nodes. -/
theorem jobTrees_paths_fit (calls : List TreeCall) (codes : List ℤ)
    (hrun : JobTrees.init.run calls = some (codes, s))
    (hjobid : s.jobidTree.toList.length + 1 < 2 ^ 64)
    (hjobmap : s.jobmapTree.toList.length + 1 < 2 ^ 64) (node : NodeKey) :
    insertPath (fun other => jobidTreeCmp node other.toNodeKey) s.jobidTree ≤ pathEntries ∧
    removePath (fun other => jobidTreeCmp node other.toNodeKey) s.jobidTree ≤ pathEntries ∧
    insertPath (fun other => jobmapTreeCmp node other.toNodeKey) s.jobmapTree ≤ pathEntries ∧
    removePath (fun other => jobmapTreeCmp node other.toNodeKey) s.jobmapTree ≤ pathEntries := by
  have hrefines := refines_init.run rfl calls
  rw [hrun] at hrefines
  cases happly : applyAll .init calls with
  | none =>
    rw [happly] at hrefines
    exact hrefines.elim
  | some result =>
    rw [happly] at hrefines
    obtain ⟨-, h⟩ := hrefines
    have hid := h.jobid.kept.paths_le (b := 63) hjobid
      fun other => jobidTreeCmp node other.toNodeKey
    have hmap := h.jobmap.kept.paths_le (b := 63) hjobmap
      fun other => jobmapTreeCmp node other.toNodeKey
    unfold pathEntries
    omega

def sevenJobs : List TreeCall := (List.range 7).map fun i => .mapInsert 1 (some i) 0 true

theorem jobTrees_paths_fit_seven :
    ∃ s, JobTrees.init.run sevenJobs = some (List.replicate 7 0, s) ∧
      s.jobidTree.toList.length = 7 ∧
      removePath (fun other : JtNode => jobidTreeCmp ⟨jtnodeMagic, jobKey (some 3)⟩ other.toNodeKey)
        s.jobidTree ≤ pathEntries := by
  have hdone : (JobTrees.init.run sevenJobs).map (fun r =>
      (r.1, r.2.jobidTree.toList.length, r.2.jobmapTree.toList.length)) =
      some (List.replicate 7 0, 7, 0) := by decide
  obtain ⟨⟨codes, s⟩, hrun, hresult⟩ := Option.map_eq_some_iff.mp hdone
  obtain ⟨rfl, hjobid, hjobmap⟩ : codes = _ ∧ s.jobidTree.toList.length = 7 ∧
    s.jobmapTree.toList.length = 0 := by simpa using hresult
  have hpaths := jobTrees_paths_fit sevenJobs _ hrun (by omega) (by omega)
    ⟨jtnodeMagic, jobKey (some 3)⟩
  exact ⟨s, hrun, hjobid, hpaths.2.1⟩

end SeamlessStack.Jobs.Trees

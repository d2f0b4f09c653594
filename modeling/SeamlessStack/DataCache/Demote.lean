import SeamlessStack.DataCache.Cache

/-! `lru_demote_entries`, which moves the objects used least recently from memcached to the SSD. The
LRU tree has the sentinels `root`, with the tree to its left, and `nil`, its own left child. The
walk to the leftmost node looks for NULL and finds none. -/
namespace SeamlessStack.DataCache.Lru
open Lib RbTree

/-- A node of the LRU tree, with a time as its key. -/
structure LruNode where
  time : ℤ
  hashkey : Key
  deriving DecidableEq

def lruCompFunc (val1 val2 : ℤ) : ℤ :=
  if val1 > val2 then 1 else if val1 < val2 then -1 else 0

/-- A pointer to a node of a tree; `node .nil` is the sentinel. -/
inductive Pointer
  | null
  | root
  | node (t : RbTree LruNode)

def Pointer.left (tree : RbTree LruNode) : Pointer → Pointer
  | .null => .null
  | .root => .node tree
  | .node t => .node t.left

def leftmostFrom (tree : RbTree LruNode) : ℕ → Pointer → Option Pointer
  | 0, _ => none
  | fuel + 1, p =>
    match p.left tree with
    | .null => some p
    | q => leftmostFrom tree fuel q

def leftmostNode (fuel : ℕ) (tree : RbTree LruNode) : Option Pointer :=
  leftmostFrom tree fuel .root

/-- `free` is the `free` of a time, `sentinel` the use of a sentinel's information, never set. -/
inductive Fault
  | null
  | deadlock
  | free
  | sentinel
  | cache (fault : DataCache.Fault)
  deriving DecidableEq, Repr

structure Caches where
  lru : RbTree LruNode
  cache : Cache

/-- A registered SSD cache: the handle to use, and the entry that the data is stored as. -/
structure SsdOps where
  ssdCacheGetHandle : UInt32
  ssdCacheStore : Cache → UInt32 → Data → ℤ × Cache

def noHandle : UInt32 := 4294967295

def fromCache {α : Type} : Except DataCache.Fault α → Except Fault α := Except.mapError .cache

def deref (p : Option ℕ) : Except Fault ℕ :=
  match p with
  | some a => .ok a
  | none => .error .null

/-- `RBDelete` on the LRU tree, whose function for the key frees it: it is a time. -/
def lruDelete (s : Caches) (node : LruNode) : Except Fault Caches := do
  require (node.time = 0) .free
  let destroyInfo : Option ℕ := none
  let _ ← deref destroyInfo
  let place := (s.lru.placeOf (· = node) []).getD (.nil, [])
  return { s with lru := deleteAt place.1 place.2 }

theorem strncpyKey_length (k : Key) :
    (k.text ++ List.replicate (digestLength - k.text.length) 0).length = digestLength := by
  have hle : k.text.length ≤ k.1.length := (List.takeWhile_sublist _).length_le
  rw [k.2] at hle
  rw [List.length_append, List.length_replicate]
  omega

def strncpyKey (k : Key) : Key :=
  ⟨k.text ++ List.replicate (digestLength - k.text.length) 0, strncpyKey_length k⟩

def lruInsertEntry (now : ℤ) (s : Caches) (hashkey : Key) : Caches :=
  { s with lru := s.lru.insert (fun n => lruCompFunc n.time now) ⟨now, strncpyKey hashkey⟩ }

/-- `sstack_cache_purge`, called with the lock of the entry `held`. -/
def purgeHeld (M : Memcmp) (held : ℕ) (c : Cache) (hashkey : Key) : Except Fault (ℤ × Cache) := do
  let place ← fromCache (c.rbExactQuery M hashkey)
  match place.1 with
  | .nil => return (-1, c)
  | .node _ _ n _ => do
    require (n.info ≠ held) .deadlock
    fromCache (sstackCachePurge M c (some hashkey))

/-- The branch with an SSD. Its own variable `cache` hides the one that was found, and is NULL. -/
def demoteToSsd (M : Memcmp) (ops : SsdOps) (now : ℤ) (s : Caches) (held : ℕ) (node : LruNode)
    (data : Data) : Except Fault (ℤ × Caches) := do
  let cache : Option ℕ := none
  let handle := ops.ssdCacheGetHandle
  if handle = noHandle then
    let _ ← deref cache
    return (-1, s)
  else
    let (ce, c) := ops.ssdCacheStore s.cache handle data
    if ce < 0 then
      let _ ← deref cache
      return (-1, { s with cache := c })
    else
      let info ← deref cache
      let e ← fromCache (c.entry info)
      let mc ← fromCache e.mc
      let (ret, c) := c.sstackMemcacheRemove mc node.hashkey.text
      if ret = -1 then return (-1, { s with cache := c })
      else
        let moved : Entry := { e with place := .ssdcache handle ce data.length }
        let c := { c with entries := c.entries.set info (some moved) }
        let (ret, c) ← purgeHeld M held c node.hashkey
        if ret = -1 then return (-1, { s with cache := c })
        else
          let (ret, c) ← fromCache (sstackCacheStore M c (some data) (some info) true)
          if ret = -1 then return (-1, { s with cache := c })
          else
            let s := lruInsertEntry now { s with cache := c } e.hashkey
            let s ← lruDelete s node
            return (0, lruInsertEntry now s node.hashkey)

/-- A turn of the loop, with the node that was found. -/
def demoteNode (M : Memcmp) (ssdCache : Option SsdOps) (now : ℤ) (s : Caches) (node : LruNode) :
    Except Fault (ℤ × Caches) := do
  let place ← fromCache (s.cache.rbExactQuery M node.hashkey)
  match place.1 with
  | .nil => do
    let s ← lruDelete s node
    return (-1, s)
  | .node _ _ n _ => do
    let e ← fromCache (s.cache.entry n.info)
    let mc ← fromCache e.mc
    match s.cache.sstackMemcacheReadOne mc node.hashkey.text with
    | none => do
      let (_, c) ← purgeHeld M n.info s.cache node.hashkey
      let s ← lruDelete { s with cache := c } node
      return (-1, s)
    | some data =>
      match ssdCache with
      | some ops => demoteToSsd M ops now s n.info node data
      | none => do
        let (ret, c) := s.cache.sstackMemcacheRemove mc node.hashkey.text
        if ret = -1 then return (-1, { s with cache := c })
        else
          let (ret, c) ← purgeHeld M n.info c node.hashkey
          if ret = -1 then return (-1, { s with cache := c })
          else
            let s ← lruDelete { s with cache := c } node
            return (0, s)

/-- The loop, with some function for the leftmost node; `none` as long as it has not returned. -/
def demoteTurns (M : Memcmp) (ssdCache : Option SsdOps) (now : ℤ)
    (leftmost : RbTree LruNode → Option Pointer) :
    ℕ → Caches → Option (Except Fault (ℤ × Caches))
  | 0, s => some (.ok (0, s))
  | num + 1, s =>
    match leftmost s.lru with
    | none => none
    | some .null => some (.ok (-1, s))
    | some (.node (.node _ _ entry _)) =>
      match demoteNode M ssdCache now s entry with
      | .error fault => some (.error fault)
      | .ok (ret, s) =>
        if ret = -1 then some (.ok (-1, s)) else demoteTurns M ssdCache now leftmost num s
    | some _ => some (.error .sentinel)

def lruDemoteEntries (M : Memcmp) (ssdCache : Option SsdOps) (now : ℤ)
    (leftmost : RbTree LruNode → Option Pointer) (num : ℤ) (s : Caches) :
    Option (Except Fault (ℤ × Caches)) :=
  if num ≤ 0 then some (.ok (-1, s)) else demoteTurns M ssdCache now leftmost num.toNat s

/-! ### What the call is for -/

def OnSsd (c : Cache) (k : Key) (data : Data) : Prop :=
  ∃ n ∈ c.tree.toList, ∃ handle entry,
    c.entries[n.info]?.join = some ⟨k, .ssdcache handle entry data.length⟩ ∧
      c.ssd handle entry = some data

/-- Every cached object is where its flag says, and not in memcached when it is on the SSD. -/
def Placed (c : Cache) : Prop :=
  ∀ n ∈ c.tree.toList, ∀ e, c.entries[n.info]?.join = some e →
    match e.place with
    | .memcache _ => c.memcached e.hashkey.text ≠ none
    | .ssdcache handle entry _ => c.memcached e.hashkey.text = none ∧ c.ssd handle entry ≠ none

def ssdPut (c : Cache) (handle : UInt32) (entry : ℤ) (data : Data) : Cache :=
  let line := Function.update (c.ssd handle) entry (some data)
  { c with ssd := Function.update c.ssd handle line }

/-- A registered SSD that has room. -/
def Stores (ssdCache : Option SsdOps) : Prop :=
  ∃ ops ∈ ssdCache, ops.ssdCacheGetHandle ≠ noHandle ∧ ∀ c handle data,
    ∃ entry : ℤ, 0 ≤ entry ∧
      ops.ssdCacheStore c handle data = (entry, ssdPut c handle entry data)

/-- The oldest nodes asked for went from memcached to the SSD, and nothing else moved. -/
def Moves (num : ℤ) (s s' : Caches) : Prop :=
  ∃ moved : List LruNode, moved.length = min num.toNat s.lru.toList.length ∧
    moved.Sublist s.lru.toList ∧
    (∀ m ∈ moved, ∀ n ∈ s.lru.toList, n ∉ moved → m.time ≤ n.time) ∧
    (∀ m ∈ moved, ∃ data, s.cache.memcached m.hashkey.text = some data ∧
      s'.cache.memcached m.hashkey.text = none ∧ OnSsd s'.cache m.hashkey data) ∧
    ∀ k : Key, (∀ m ∈ moved, m.hashkey ≠ k) →
      s'.cache.memcached k.text = s.cache.memcached k.text ∧
        ∀ data, OnSsd s'.cache k data ↔ OnSsd s.cache k data

/-- The call returns, and with an SSD it moves what it should and leaves every object in one
place. -/
def DemotesRight (M : Memcmp) (ssdCache : Option SsdOps) (now : ℤ)
    (leftmost : ℕ → RbTree LruNode → Option Pointer) (s : Caches) (num : ℤ) : Prop :=
  ∃ fuel ret s', lruDemoteEntries M ssdCache now (leftmost fuel) num s = some (.ok (ret, s')) ∧
    (Stores ssdCache → Placed s.cache → Moves num s s' ∧ Placed s'.cache)

/-! ### The walk to the left -/

section Walk
variable {M : Memcmp} {ssdCache : Option SsdOps} {now num : ℤ} {s : Caches}

theorem leftmostFrom_eq_none (tree : RbTree LruNode) (fuel : ℕ) {p : Pointer} (hp : p ≠ .null) :
    leftmostFrom tree fuel p = none := by
  induction fuel generalizing p with
  | zero => rfl
  | succ fuel ih =>
    cases p with
    | null => exact absurd rfl hp
    | root | node t => exact ih (by simp [Pointer.left])

theorem leftmostNode_eq_none (fuel : ℕ) (tree : RbTree LruNode) : leftmostNode fuel tree = none :=
  leftmostFrom_eq_none tree fuel (by simp)

theorem lruDemoteEntries_spins (fuel : ℕ) (hnum : 0 < num) :
    lruDemoteEntries M ssdCache now (leftmostNode fuel) num s = none := by
  obtain ⟨n, hn⟩ : ∃ n, num.toNat = n + 1 := ⟨num.toNat - 1, by omega⟩
  unfold lruDemoteEntries
  rw [if_neg (by omega), hn, demoteTurns, leftmostNode_eq_none]

theorem moves_refl (h : num ≤ 0 ∨ s.lru = .nil) : Moves num s s := by
  have hnone : min num.toNat s.lru.toList.length = 0 := by
    rcases h with h | h
    · rw [Int.toNat_of_nonpos h, Nat.zero_min]
    · rw [h]
      exact Nat.min_zero _
  exact ⟨[], hnone.symm, List.nil_sublist _, by simp, by simp, fun _ _ => ⟨rfl, fun _ => Iff.rfl⟩⟩

theorem demotesRight_of_refused (leftmost : ℕ → RbTree LruNode → Option Pointer) (h : num ≤ 0) :
    DemotesRight M ssdCache now leftmost s num := by
  refine ⟨0, -1, s, ?_, fun _ hplaced => ⟨moves_refl (.inl h), hplaced⟩⟩
  rw [lruDemoteEntries, if_pos h]

end Walk

/-- The call is right when there is nothing to do; otherwise it does not return. -/
theorem demotesRight_iff (M : Memcmp) (ssdCache : Option SsdOps) (now : ℤ) (s : Caches) (num : ℤ) :
    DemotesRight M ssdCache now leftmostNode s num ↔ num ≤ 0 := by
  constructor
  · rintro ⟨fuel, ret, s', hcall, -⟩
    by_contra hnum
    rw [lruDemoteEntries_spins fuel (by omega)] at hcall
    cases hcall
  · exact demotesRight_of_refused leftmostNode

/-! ### A turn, with any node -/

section Turn
variable {M : Memcmp} {ssdCache : Option SsdOps} {now num : ℤ} {s : Caches} {node : LruNode}

theorem fromCache_eq_ok {α : Type} {x : Except DataCache.Fault α} {a : α} :
    fromCache x = .ok a ↔ x = .ok a := by
  cases x with
  | error e | ok b => simp [fromCache, Except.mapError]

theorem not_returns_lruDelete : ¬ Returns (lruDelete s node) := by
  rintro ⟨s', h⟩
  obtain ⟨u, -, h⟩ := bind_eq_ok.mp h
  dsimp only at h
  obtain ⟨info, hderef, -⟩ := bind_eq_ok.mp h
  cases hderef

theorem not_returns_demoteToSsd (ops : SsdOps) (held : ℕ) (data : Data) :
    ¬ Returns (demoteToSsd M ops now s held node data) := by
  rintro ⟨r, h⟩
  unfold demoteToSsd at h
  dsimp only at h
  split_ifs at h
  all_goals
    obtain ⟨info, hderef, -⟩ := bind_eq_ok.mp h
    cases hderef

theorem not_returns_purgeHeld {c : Cache} {k : Key} {color : Bool} {l r : RbTree Node} {n : Node}
    {path : List (Crumb Node)} (h : c.rbExactQuery M k = .ok (.node color l n r, path)) :
    ¬ Returns (purgeHeld M n.info c k) := by
  rintro ⟨a, hpurge⟩
  unfold purgeHeld at hpurge
  rw [fromCache_eq_ok.mpr h, ok_bind] at hpurge
  obtain ⟨u, hheld, -⟩ := bind_eq_ok.mp hpurge
  exact require_eq_ok.mp hheld rfl

theorem rbExactQuery_memcacheRemove (c : Cache) (mc : Bool) (key : List UInt8) (k : Key) :
    (c.sstackMemcacheRemove mc key).2.rbExactQuery M k = c.rbExactQuery M k := by
  unfold Cache.sstackMemcacheRemove
  split_ifs <;> rfl

theorem memcacheRemove_ne {c : Cache} {mc : Bool} {key : List UInt8} {data : Data}
    (h : c.sstackMemcacheReadOne mc key = some data) : (c.sstackMemcacheRemove mc key).1 ≠ -1 := by
  unfold Cache.sstackMemcacheReadOne at h
  unfold Cache.sstackMemcacheRemove
  split_ifs at h ⊢ <;> simp_all

/-- No turn of the loop comes to its end, whatever node it is given. -/
theorem not_returns_demoteNode : ¬ Returns (demoteNode M ssdCache now s node) := by
  rintro ⟨a, h⟩
  obtain ⟨⟨place, path⟩, hplace, h⟩ := bind_eq_ok.mp h
  rw [fromCache_eq_ok] at hplace
  cases place with
  | nil =>
    obtain ⟨s', hdelete, -⟩ := bind_eq_ok.mp h
    exact not_returns_lruDelete ⟨s', hdelete⟩
  | node color l n r =>
    obtain ⟨e, -, h⟩ := bind_eq_ok.mp h
    obtain ⟨mc, -, h⟩ := bind_eq_ok.mp h
    cases hread : s.cache.sstackMemcacheReadOne mc node.hashkey.text with
    | none =>
      rw [hread] at h
      obtain ⟨purged, hpurge, -⟩ := bind_eq_ok.mp h
      exact not_returns_purgeHeld hplace ⟨purged, hpurge⟩
    | some data =>
      rw [hread] at h
      cases ssdCache with
      | some ops => exact not_returns_demoteToSsd ops n.info data ⟨a, h⟩
      | none =>
        dsimp only at h
        rw [if_neg (memcacheRemove_ne hread)] at h
        obtain ⟨purged, hpurge, -⟩ := bind_eq_ok.mp h
        rw [← rbExactQuery_memcacheRemove s.cache mc node.hashkey.text] at hplace
        exact not_returns_purgeHeld hplace ⟨purged, hpurge⟩

def leastNode : RbTree LruNode → Pointer
  | .nil => .null
  | .node c .nil x r => .node (.node c .nil x r)
  | .node _ l _ _ => leastNode l

theorem leastNode_node (c : Bool) (l : RbTree LruNode) (x : LruNode) (r : RbTree LruNode) :
    ∃ c' x' r', leastNode (.node c l x r) = .node (.node c' .nil x' r') := by
  induction l generalizing c x r with
  | nil => exact ⟨c, x, r, rfl⟩
  | node c' l' x' r' ihl ihr => exact ihl c' x' r'

/-- With a walk that finds the least node the loop still fails in its first turn. -/
theorem demotesRight_leastNode_iff :
    DemotesRight M ssdCache now (fun _ tree => some (leastNode tree)) s num ↔
      num ≤ 0 ∨ s.lru = .nil := by
  by_cases hnum : num ≤ 0
  · exact iff_of_true (demotesRight_of_refused _ hnum) (.inl hnum)
  obtain ⟨n, hn⟩ : ∃ n, num.toNat = n + 1 := ⟨num.toNat - 1, by omega⟩
  cases hlru : s.lru with
  | nil =>
    refine iff_of_true ⟨0, -1, s, ?_, fun _ hplaced => ⟨moves_refl (.inr hlru), hplaced⟩⟩ (.inr rfl)
    rw [lruDemoteEntries, if_neg hnum, hn, demoteTurns, hlru]
    rfl
  | node c l x r =>
    refine iff_of_false ?_ (by simp [hnum])
    rintro ⟨fuel, ret, s', hcall, -⟩
    obtain ⟨c', x', r', hleast⟩ := leastNode_node c l x r
    rw [lruDemoteEntries, if_neg hnum, hn, demoteTurns, hlru] at hcall
    dsimp only at hcall
    rw [hleast] at hcall
    dsimp only at hcall
    cases hturn : demoteNode M ssdCache now s x' with
    | error fault =>
      rw [hturn] at hcall
      cases hcall
    | ok a => exact not_returns_demoteNode ⟨a, hturn⟩

end Turn

/-- A tree with one entry, which was last used at time 1. -/
theorem lruDemoteEntries_never : ∃ s : Caches, s.lru.toList.length = 1 ∧
    ∀ M ssdCache now, (∀ fuel, lruDemoteEntries M ssdCache now (leftmostNode fuel) 1 s = none) ∧
      ¬ DemotesRight M ssdCache now leftmostNode s 1 := by
  let key : Key := ⟨List.replicate 32 1, by decide⟩
  let c : Cache := ⟨[some ⟨key, .memcache true⟩], .node false .nil ⟨key, 0, 0⟩ .nil, 1,
    fun _ => some [7], fun _ _ => none⟩
  refine ⟨⟨.node false .nil ⟨1, key⟩ .nil, c⟩, rfl, fun M ssdCache now => ⟨fun fuel => ?_, ?_⟩⟩
  · exact lruDemoteEntries_spins fuel one_pos
  · rintro ⟨fuel, ret, s', hcall, -⟩
    rw [lruDemoteEntries_spins fuel one_pos] at hcall
    cases hcall

end SeamlessStack.DataCache.Lru

import SeamlessStack.Lib.Except
import SeamlessStack.Lib.Ring
import SeamlessStack.Slab.Lists

/-! The caches that were created, `cache_cache` from whose objects their descriptors are made, the
chain that links them, and the garbage collector that walks it. -/
namespace SeamlessStack.Slab
open Lib Function

/-- The nodes of `cache_chain`: its head, and the `next` of `cache_cache` and of each descriptor,
named by its object of `cache_cache`. -/
inductive Node
  | cacheChain
  | cacheCache
  | desc (slot : Obj)
  deriving DecidableEq, Repr

/-- A cache descriptor, with the objects of the cache that are handed out. -/
structure Descriptor where
  desc : CacheDesc
  heap : Heap
  linger : ℕ
  deriving DecidableEq, Repr

def Descriptor.zero : Descriptor where
  desc := ⟨0, 0, 0, 0, 0, false, 0, 0⟩
  heap := ⟨⟨0, 0, 0, 0, [], [], [], []⟩, []⟩
  linger := 0

/-- `store` has all descriptors, `caches` are those in use, and `gone` those destroyed, with
repetitions. -/
structure Allocator where
  cacheCache : Heap
  store : Obj → Descriptor
  caches : List Obj
  gone : List Obj
  chain : Links Node

def Allocator.setHeap (a : Allocator) (slot : Obj) (heap : Heap) : Allocator :=
  { a with store := update a.store slot { a.store slot with heap } }

theorem Allocator.setHeap_store_self (a : Allocator) (slot : Obj) (heap : Heap) :
    (a.setHeap slot heap).store slot = { a.store slot with heap } := by
  simp [setHeap]

theorem Allocator.setHeap_store_of_ne (a : Allocator) {s slot : Obj} (hne : s ≠ slot)
    (heap : Heap) : (a.setHeap slot heap).store s = a.store s := by
  simp [setHeap, hne]

def atomicRead (x : ℤ) : ℤ := x.bmod (2 ^ 32)

def bdsListAdd (chain : Links Node) (new head : Node) : Links Node := chain.add new head

def initListHead (chain : Links Node) (head : Node) : Links Node where
  next := update chain.next head head
  prev := update chain.prev head head

/-- `bds_cache_init`; the links of nodes that are on no list may be anything. -/
def bdsCacheInit (links : Links Node) : Allocator where
  cacheCache := ⟨⟨0, 0, 0, 0, [], [], [], []⟩, []⟩
  store := fun _ => .zero
  caches := []
  gone := []
  chain := bdsListAdd (initListHead links .cacheChain) .cacheCache .cacheChain

/-- `-ENOMEM`: no order holds an object, and the descriptor had no object count before. -/
def setupNoMem (old : CacheDesc) (flag : Bool) (size : ℕ) : Bool :=
  match calculateSlabOrder old size (flag || decide (pageSize >>> 3 ≤ size)) with
  | some (desc, _) => desc.num = 0
  | none => false

def Descriptor.setup (old : Descriptor) (desc : CacheDesc) : Descriptor where
  desc := desc
  heap := ⟨⟨old.heap.cache.colourNext, 0, 0, 0, [], [], [], []⟩, []⟩
  linger := 8

/-- `pages` is where `mmap` puts a slab if `cache_cache` grows. When the size is refused the
descriptor is not given back. -/
def bdsCacheCreate (cacheLine : ℕ) (a : Allocator) (flag : Bool) (size : ℕ) (pages : ℤ) :
    Option Allocator := do
  let (c, slot, _) ← bdsCacheAlloc (cacheCache cacheLine) pages 2 a.cacheCache.cache
  let a := { a with cacheCache := ⟨c, slot :: a.cacheCache.live⟩ }
  let old := a.store slot
  if setupNoMem old.desc flag size then some a
  else
    let desc ← setupCacheDesc cacheLine old.desc flag size
    some { a with
      store := update a.store slot (old.setup desc)
      caches := slot :: a.caches
      chain := bdsListAdd a.chain (.desc slot) .cacheChain }

def Descriptor.destroySlabLists (old : Descriptor) : Descriptor :=
  { old with heap :=
    ⟨{ old.heap.cache with slabsPartial := [], slabsFull := [], slabsFree := [] }, []⟩ }

/-- A slab of `cache_cache` is one page that starts with its descriptor, so it is found there. -/
def bdsCacheDestroy (cacheLine : ℕ) (a : Allocator) (slot : Obj) (force : Bool) :
    Option Allocator :=
  if 0 < atomicRead (a.store slot).heap.cache.refcount ∧ force = false then some a
  else do
    let p ← a.cacheCache.cache.ptr (cacheCache cacheLine) slot
    let (c, _) ← bdsCacheFree (cacheCache cacheLine) a.cacheCache.cache (some slot.slab) p
    some { a with
      cacheCache := ⟨c, a.cacheCache.live.erase slot⟩
      store := update a.store slot (a.store slot).destroySlabLists
      caches := a.caches.erase slot
      gone := slot :: a.gone }

/-- `__destroy_free_slabs` divides by a slab count of zero, or takes the head of an empty list for a
slab; the walk reads an unmapped descriptor, or does not come back to the head. -/
inductive GcFault
  | divByZero
  | listHead
  | unmapped
  | endless
  deriving DecidableEq, Repr

def fewFree (threshold linger : ℕ) (total free : ℤ) : Prop :=
  toUint free * 100 % 2 ^ 32 / toUint total < threshold ∨ toUint free < linger

instance (threshold linger : ℕ) (total free : ℤ) :
    Decidable (fewFree threshold linger total free) := inferInstanceAs (Decidable (_ ∨ _))

/-- On the list `slabs_free`, with the two counts; it returns what is left of them. -/
def destroyFreeSlabs (threshold linger : ℕ) :
    List ℕ → ℤ → ℤ → Except GcFault (List ℕ × ℤ × ℤ)
  | [], total, free =>
    if toUint total = 0 then .error .divByZero
    else if fewFree threshold linger total free then .ok ([], total, free)
    else .error .listHead
  | k :: ks, total, free =>
    if toUint total = 0 then .error .divByZero
    else if fewFree threshold linger total free then .ok (k :: ks, total, free)
    else destroyFreeSlabs threshold linger ks (total - 1) (free - 1)

/-- What the garbage collector does at one cache of the chain. -/
def collectCache (threshold linger : ℕ) (c : Cache) : Except GcFault Cache :=
  if threshold * toUint c.totalSlabCount % 2 ^ 32 / 100 < toUint c.freeSlabCount then do
    let (slabsFree, totalSlabCount, freeSlabCount) ←
      destroyFreeSlabs threshold linger c.slabsFree c.totalSlabCount c.freeSlabCount
    .ok { c with slabsFree, totalSlabCount, freeSlabCount }
  else .ok c

/-- `cache_cache` has a `linger` of zero. A descriptor whose slab is on no list is unmapped. -/
def collectNode (threshold : ℕ) (a : Allocator) : Node → Except GcFault Allocator
  | .cacheChain => .ok a
  | .cacheCache => do
    let c ← collectCache threshold 0 a.cacheCache.cache
    .ok { a with cacheCache := ⟨c, a.cacheCache.live⟩ }
  | .desc slot =>
    if a.cacheCache.cache.onLists slot.slab = (0, 0, 0) then .error .unmapped
    else do
      let d := a.store slot
      let c ← collectCache threshold d.linger d.heap.cache
      .ok (a.setHeap slot ⟨c, d.heap.live⟩)

/-- The walk over `cache_chain` from a node on, for at most the given number of nodes. -/
def collectFrom (threshold : ℕ) : ℕ → Node → Allocator → Except GcFault Allocator
  | 0, _, _ => .error .endless
  | fuel + 1, node, a =>
    if node = .cacheChain then .ok a
    else do
      let a ← collectNode threshold a node
      collectFrom threshold fuel (a.chain.next node) a

def gcThreshold (params : Option ℕ) : ℕ :=
  match params with
  | some threshold => if 99 < threshold then 25 else threshold
  | none => 25

/-- One pass. A walk that visits more nodes than were ever linked does not end. -/
def bdsGarbageCollect (params : Option ℕ) (a : Allocator) : Except GcFault Allocator :=
  collectFrom (gcThreshold params) (a.caches.length + a.gone.length + 2)
    (a.chain.next .cacheChain) a

inductive Event
  | create (flag : Bool) (size : ℕ) (pages : ℤ)
  | alloc (slot : Obj) (pages : ℤ)
  | free (slot : Obj) (o : Obj) (found : Option ℕ)
  | destroy (slot : Obj) (force : Bool)
  | pass (params : Option ℕ)
  deriving DecidableEq, Repr

/-- One call or one pass, on caches in use, where only objects that are handed out are freed;
`found` is the slab that the search found. -/
def Allocator.step (cacheLine : ℕ) (a : Allocator) : Event → Option Allocator
  | .create flag size pages => bdsCacheCreate cacheLine a flag size pages
  | .alloc slot pages =>
    if slot ∈ a.caches then do
      let d := a.store slot
      let (c, o, _) ← bdsCacheAlloc d.desc pages 2 d.heap.cache
      some (a.setHeap slot ⟨c, o :: d.heap.live⟩)
    else none
  | .free slot o found =>
    if slot ∈ a.caches ∧ o ∈ (a.store slot).heap.live then do
      let d := a.store slot
      let p ← d.heap.cache.ptr d.desc o
      let (c, r) ← bdsCacheFree d.desc d.heap.cache found p
      let live := if r = 0 then d.heap.live.erase o else d.heap.live
      some (a.setHeap slot ⟨c, live⟩)
    else none
  | .destroy slot force =>
    if slot ∈ a.caches then bdsCacheDestroy cacheLine a slot force else none
  | .pass params => (bdsGarbageCollect params a).toOption

def allocatorSystem (cacheLine : ℕ) : System Allocator Event where
  init a := ∃ links, a = bdsCacheInit links
  step := Allocator.step cacheLine

section Cases
variable {cacheLine : ℕ} {a a' : Allocator}

theorem bdsCacheCreate_cases {flag : Bool} {size : ℕ} {pages : ℤ}
    (h : bdsCacheCreate cacheLine a flag size pages = some a') :
    ∃ c slot p, bdsCacheAlloc (cacheCache cacheLine) pages 2 a.cacheCache.cache =
      some (c, slot, p) ∧
      (a' = { a with cacheCache := ⟨c, slot :: a.cacheCache.live⟩ } ∨
        ∃ desc, setupCacheDesc cacheLine (a.store slot).desc flag size = some desc ∧
          a' = { a with
            cacheCache := ⟨c, slot :: a.cacheCache.live⟩
            store := update a.store slot ((a.store slot).setup desc)
            caches := slot :: a.caches
            chain := a.chain.add (.desc slot) .cacheChain }) := by
  simp only [bdsCacheCreate, Option.bind_eq_bind, Option.bind_eq_some_iff, Prod.exists] at h
  obtain ⟨c, slot, p, ha, h⟩ := h
  refine ⟨c, slot, p, ha, ?_⟩
  split_ifs at h
  · exact Or.inl (Option.some.inj h).symm
  · obtain ⟨desc, hdesc, h⟩ := Option.bind_eq_some_iff.mp h
    exact Or.inr ⟨desc, hdesc, (Option.some.inj h).symm⟩

theorem bdsCacheDestroy_cases {slot : Obj} {force : Bool}
    (h : bdsCacheDestroy cacheLine a slot force = some a') :
    a' = a ∨ ∃ p c, a.cacheCache.cache.ptr (cacheCache cacheLine) slot = some p ∧
      freeOne (cacheCache cacheLine) a.cacheCache.cache slot.slab p = some c ∧
      a' = { a with
        cacheCache := ⟨c, a.cacheCache.live.erase slot⟩
        store := update a.store slot (a.store slot).destroySlabLists
        caches := a.caches.erase slot
        gone := slot :: a.gone } := by
  simp only [bdsCacheDestroy, Option.bind_eq_bind] at h
  split_ifs at h
  · exact Or.inl (Option.some.inj h).symm
  · obtain ⟨p, hp, h⟩ := Option.bind_eq_some_iff.mp h
    obtain ⟨⟨c, r⟩, hc, h⟩ := Option.bind_eq_some_iff.mp h
    obtain ⟨c', hc', he⟩ := Option.map_eq_some_iff.mp hc
    obtain ⟨rfl, -⟩ := Prod.mk.inj he
    exact Or.inr ⟨p, c', hp, hc', (Option.some.inj h).symm⟩

/-- The collector takes slabs off the head of `slabs_free` and counts them off. -/
theorem destroyFreeSlabs_cases {threshold linger : ℕ} {slabs rest : List ℕ} {total free t f : ℤ}
    (h : destroyFreeSlabs threshold linger slabs total free = .ok (rest, t, f)) :
    ∃ taken : List ℕ, slabs = taken ++ rest ∧ t = total - taken.length ∧
      f = free - taken.length := by
  induction slabs generalizing total free with
  | nil =>
    simp only [destroyFreeSlabs] at h
    split_ifs at h
    obtain ⟨rfl, rfl, rfl⟩ : [] = rest ∧ total = t ∧ free = f := by simpa using h
    exact ⟨[], by simp⟩
  | cons k ks ih =>
    simp only [destroyFreeSlabs] at h
    split_ifs at h
    · obtain ⟨rfl, rfl, rfl⟩ : k :: ks = rest ∧ total = t ∧ free = f := by simpa using h
      exact ⟨[], by simp⟩
    · obtain ⟨taken, rfl, rfl, rfl⟩ := ih h
      refine ⟨k :: taken, rfl, ?_, ?_⟩
      · rw [List.length_cons]
        push_cast
        ring
      · rw [List.length_cons]
        push_cast
        ring

/-- The cache without the slabs that the collector took. -/
def Cache.without (c : Cache) (taken rest : List ℕ) : Cache :=
  { c with
    slabsFree := rest
    totalSlabCount := c.totalSlabCount - taken.length
    freeSlabCount := c.freeSlabCount - taken.length }

theorem collectCache_cases {threshold linger : ℕ} {c c' : Cache}
    (h : collectCache threshold linger c = .ok c') :
    ∃ taken rest, c.slabsFree = taken ++ rest ∧ c' = c.without taken rest := by
  simp only [collectCache] at h
  split_ifs at h
  · obtain ⟨⟨rest, t, f⟩, hd, h⟩ := bind_eq_ok.mp h
    obtain ⟨taken, hl, rfl, rfl⟩ := destroyFreeSlabs_cases hd
    exact ⟨taken, rest, hl, (Except.ok.inj h).symm⟩
  · obtain rfl := Except.ok.inj h
    exact ⟨[], c.slabsFree, rfl, by simp [Cache.without]⟩

theorem collectNode_cases {threshold : ℕ} {node : Node}
    (h : collectNode threshold a node = .ok a') :
    a' = a ∨
    (∃ c, collectCache threshold 0 a.cacheCache.cache = .ok c ∧
      a' = { a with cacheCache := ⟨c, a.cacheCache.live⟩ }) ∨
    ∃ slot c, collectCache threshold (a.store slot).linger (a.store slot).heap.cache = .ok c ∧
      a' = a.setHeap slot ⟨c, (a.store slot).heap.live⟩ := by
  cases node with
  | cacheChain => exact Or.inl (Except.ok.inj h).symm
  | cacheCache =>
    obtain ⟨c, hc, h⟩ := bind_eq_ok.mp h
    exact Or.inr (Or.inl ⟨c, hc, (Except.ok.inj h).symm⟩)
  | desc slot =>
    simp only [collectNode] at h
    split_ifs at h
    obtain ⟨c, hc, h⟩ := bind_eq_ok.mp h
    exact Or.inr (Or.inr ⟨slot, c, hc, (Except.ok.inj h).symm⟩)

theorem collectFrom_preserves {I : Allocator → Prop} {threshold : ℕ}
    (hnode : ∀ a node a', I a → collectNode threshold a node = .ok a' → I a')
    {fuel : ℕ} {node : Node} (ha : I a) (h : collectFrom threshold fuel node a = .ok a') :
    I a' := by
  induction fuel generalizing node a with
  | zero => cases h
  | succ fuel ih =>
    simp only [collectFrom] at h
    split_ifs at h
    · exact Except.ok.inj h ▸ ha
    · obtain ⟨a₁, h₁, h⟩ := bind_eq_ok.mp h
      exact ih (hnode a node a₁ ha h₁) h

theorem pass_preserves {I : Allocator → Prop} {params : Option ℕ}
    (hnode : ∀ a node a', I a → collectNode (gcThreshold params) a node = .ok a' → I a')
    (ha : I a) (h : a.step cacheLine (.pass params) = some a') : I a' := by
  simp only [Allocator.step] at h
  exact collectFrom_preserves hnode ha (toOption_eq_some.mp h)

theorem pass_frame {params : Option ℕ} (h : a.step cacheLine (.pass params) = some a') :
    (a'.chain, a'.caches, a'.gone, a'.cacheCache.live) =
      (a.chain, a.caches, a.gone, a.cacheCache.live) := by
  refine pass_preserves (I := fun b => (b.chain, b.caches, b.gone, b.cacheCache.live) =
    (a.chain, a.caches, a.gone, a.cacheCache.live)) ?_ rfl h
  intro b node b' hb hn
  rcases collectNode_cases hn with rfl | ⟨c, -, rfl⟩ | ⟨slot, c, -, rfl⟩
  · exact hb
  · exact hb
  · exact hb

theorem step_alloc_cases {slot : Obj} {pages : ℤ}
    (h : a.step cacheLine (.alloc slot pages) = some a') :
    slot ∈ a.caches ∧ ∃ c o p,
      bdsCacheAlloc (a.store slot).desc pages 2 (a.store slot).heap.cache = some (c, o, p) ∧
      a' = a.setHeap slot ⟨c, o :: (a.store slot).heap.live⟩ := by
  simp only [Allocator.step, Option.bind_eq_bind] at h
  split_ifs at h with hm
  obtain ⟨⟨c, o, p⟩, ha, h⟩ := Option.bind_eq_some_iff.mp h
  exact ⟨hm, c, o, p, ha, (Option.some.inj h).symm⟩

/-- What a free does when its search finds the right slab or none. -/
theorem step_free_cases {slot o : Obj} {found : Option ℕ}
    (hfound : found = none ∨ found = some o.slab)
    (h : a.step cacheLine (.free slot o found) = some a') :
    slot ∈ a.caches ∧ (a' = a ∨ o ∈ (a.store slot).heap.live ∧
      ∃ p c, (a.store slot).heap.cache.ptr (a.store slot).desc o = some p ∧
        freeOne (a.store slot).desc (a.store slot).heap.cache o.slab p = some c ∧
        a' = a.setHeap slot ⟨c, (a.store slot).heap.live.erase o⟩) := by
  simp only [Allocator.step, Option.bind_eq_bind] at h
  split_ifs at h with hm
  refine ⟨hm.1, ?_⟩
  obtain ⟨p, hp, h⟩ := Option.bind_eq_some_iff.mp h
  obtain ⟨⟨c, r⟩, hc, h⟩ := Option.bind_eq_some_iff.mp h
  rcases hfound with rfl | rfl
  · obtain ⟨rfl, rfl⟩ := Prod.mk.inj (Option.some.inj hc)
    left
    rw [← Option.some.inj h]
    simp [Allocator.setHeap]
  · obtain ⟨c', hc', he⟩ := Option.map_eq_some_iff.mp hc
    obtain ⟨rfl, rfl⟩ := Prod.mk.inj he
    exact Or.inr ⟨hm.2, p, c', hp, hc', (Option.some.inj h).symm⟩

theorem step_free_setHeap {slot o : Obj} {found : Option ℕ}
    (h : a.step cacheLine (.free slot o found) = some a') : ∃ heap, a' = a.setHeap slot heap := by
  simp only [Allocator.step, Option.bind_eq_bind] at h
  split_ifs at h
  obtain ⟨p, -, h⟩ := Option.bind_eq_some_iff.mp h
  obtain ⟨⟨c, r⟩, -, h⟩ := Option.bind_eq_some_iff.mp h
  exact ⟨_, (Option.some.inj h).symm⟩

theorem step_destroy_cases {slot : Obj} {force : Bool}
    (h : a.step cacheLine (.destroy slot force) = some a') :
    slot ∈ a.caches ∧ bdsCacheDestroy cacheLine a slot force = some a' := by
  simp only [Allocator.step] at h
  split_ifs at h with hm
  exact ⟨hm, h⟩

end Cases

end SeamlessStack.Slab

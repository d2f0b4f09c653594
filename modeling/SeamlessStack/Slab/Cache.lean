import SeamlessStack.Lib.Runs
import SeamlessStack.Slab.Estimate

/-! The slab allocator: a cache, the three lists its slabs are kept on, and
`bds_cache_alloc` and `bds_cache_free`. -/
namespace SeamlessStack.Slab

/-- `struct _slab_desc` together with the `bufctl` array behind it in memory. -/
structure SlabDesc where
  colourOffset : ℤ
  sMem : ℤ
  free : ℕ
  refcount : ℤ
  bufctl : List ℕ
  deriving DecidableEq, Repr

/-- The fields that change in use. Slabs are numbered as they were grown. -/
structure Cache where
  colourNext : ℤ
  refcount : ℤ
  freeSlabCount : ℤ
  totalSlabCount : ℤ
  slabs : List SlabDesc
  slabsPartial : List ℕ
  slabsFull : List ℕ
  slabsFree : List ℕ
  deriving DecidableEq, Repr

def atomicInc (x : ℤ) : ℤ := (x + 1).bmod (2 ^ 32)

def atomicDec (x : ℤ) : ℤ := (x - 1).bmod (2 ^ 32)

/-- An object of the cache: its slab and its index on the slab. -/
structure Obj where
  slab : ℕ
  index : ℕ
  deriving DecidableEq, Repr

def Cache.bdsListDel (c : Cache) (k : ℕ) : Cache :=
  { c with
    slabsPartial := c.slabsPartial.erase k
    slabsFull := c.slabsFull.erase k
    slabsFree := c.slabsFree.erase k }

def Cache.moveToPartial (c : Cache) (k : ℕ) : Cache :=
  { c.bdsListDel k with slabsPartial := k :: c.slabsPartial.erase k }

def Cache.moveToFull (c : Cache) (k : ℕ) : Cache :=
  { c.bdsListDel k with slabsFull := k :: c.slabsFull.erase k }

def Cache.moveToFree (c : Cache) (k : ℕ) : Cache :=
  { c.bdsListDel k with slabsFree := k :: c.slabsFree.erase k }

def Cache.setSlab (c : Cache) (k : ℕ) (slab : SlabDesc) : Cache :=
  { c with slabs := c.slabs.set k slab }

/-- On pages mapped at `pages`. On-slab management pushes the objects behind it. A `bds_bufctl_t` is
16 bits wide. -/
def setupSlabDesc (d : CacheDesc) (pages : ℤ) (c : Cache) : Cache :=
  let slab : SlabDesc :=
    { colourOffset := c.colourNext
      sMem := if d.offSlab then pages + c.colourNext else pages + c.colourNext + d.mgmtSize
      free := 0
      refcount := 0
      bufctl := (List.range d.num).map fun i => (i + 1) % 2 ^ 16 }
  { c with
    colourNext := if d.colour = 0 then c.colourNext
      else toSint ((c.colourNext + d.colourOffset).tmod (d.colour * d.colourOffset))
    totalSlabCount := c.totalSlabCount + 1
    slabs := c.slabs ++ [slab]
    slabsPartial := c.slabs.length :: c.slabsPartial }

def bdsCacheGrow (d : CacheDesc) (pages : ℤ) (c : Cache) : Cache := setupSlabDesc d pages c

/-- The end of `bds_cache_alloc`: the object and its pointer, or `none` where `bufctl` is read
outside. -/
def allocFrom (d : CacheDesc) (c : Cache) (k : ℕ) (slab : SlabDesc) :
    Option (Cache × Obj × ℤ) := do
  let next ← slab.bufctl[slab.free]?
  let slab' := { slab with free := next, refcount := slab.refcount + 1 }
  let c := { c.setSlab k slab' with refcount := atomicInc c.refcount }
  let c := if toUint slab'.refcount = d.num then c.moveToFull k else c
  some (c, ⟨k, slab.free⟩, slab.sMem + slab.free * d.bufferSize)

/-- The fuel bounds the calls of itself; `pages` is where `mmap` puts a slab. -/
def bdsCacheAlloc (d : CacheDesc) (pages : ℤ) : ℕ → Cache → Option (Cache × Obj × ℤ)
  | 0, _ => none
  | fuel + 1, c =>
    match c.slabsPartial, c.slabsFree with
    | k :: _, _ => do
      let slab ← c.slabs[k]?
      if toUint slab.refcount < d.num then allocFrom d c k slab
      else bdsCacheAlloc d pages fuel c
    | [], k :: _ => do
      let c := c.moveToPartial k
      let slab ← c.slabs[k]?
      if toUint slab.refcount < d.num then allocFrom d c k slab
      else bdsCacheAlloc d pages fuel c
    | [], [] => bdsCacheAlloc d pages fuel (bdsCacheGrow d pages c)

/-- Dividing by an object size of zero traps, and so does a `bufctl` index outside the array. -/
def freeOne (d : CacheDesc) (c : Cache) (k : ℕ) (obj : ℤ) : Option Cache := do
  let slab ← c.slabs[k]?
  if d.bufferSize = 0 then none
  else
    let offset := ((obj - slab.sMem) % 2 ^ 64).toNat / d.bufferSize
    if offset < slab.bufctl.length then
      let slab' :=
        { slab with
          free := offset
          refcount := slab.refcount - 1
          bufctl := slab.bufctl.set offset (slab.free % 2 ^ 16) }
      let c := { c.setSlab k slab' with refcount := atomicDec c.refcount }
      let value := toUint slab'.refcount
      -- with one object per slab both moves are made, from full over partial to free
      let c := if value = d.num - 1 then c.moveToPartial k else c
      some (if value = 0 then
        { c.moveToFree k with freeSlabCount := c.freeSlabCount + 1 } else c)
    else none

/-- `bds_cache_free`, given the slab that its search found. -/
def bdsCacheFree (d : CacheDesc) (c : Cache) (found : Option ℕ) (obj : ℤ) :
    Option (Cache × ℤ) :=
  match found with
  | some k => (freeOne d c k obj).map fun c => (c, 0)
  | none => some (c, -1)

/-- A descriptor as `bds_cache_create` or `bds_cache_init` leaves it. One taken from a destroyed
cache holds that cache's values, and is only set up for sizes within 32 MB. -/
inductive Created (cacheLine : ℕ) : CacheDesc → Prop
  | create {old d : CacheDesc} {flag : Bool} {size : ℕ} : size ≤ 2 ^ 25 ∨ old.num = 0 →
      setupCacheDesc cacheLine old flag size = some d → Created cacheLine d
  | init : Created cacheLine (cacheCache cacheLine)

theorem Created.sized {cacheLine : ℕ} {d : CacheDesc} (h : Created cacheLine d) :
    Sized d.num d.bufferSize := by
  cases h with
  | create hold h => exact (setupCacheDesc_sized hold h).1
  | init => exact cacheCache_sized cacheLine

/-- A cache with the objects that are handed out. -/
structure Heap where
  cache : Cache
  live : List Obj
  deriving DecidableEq, Repr

inductive Call
  | alloc (pages : ℤ)
  | free (o : Obj)
  deriving DecidableEq, Repr

def Cache.ptr (d : CacheDesc) (c : Cache) (o : Obj) : Option ℤ :=
  c.slabs[o.slab]?.map fun slab => slab.sMem + o.index * d.bufferSize

/-- Only objects that are handed out are freed, and the search finds their slab. -/
def call (d : CacheDesc) (h : Heap) : Call → Option Heap
  | .alloc pages => do
    let (c, o, _) ← bdsCacheAlloc d pages 2 h.cache
    some ⟨c, o :: h.live⟩
  | .free o =>
    if o ∈ h.live then do
      let p ← h.cache.ptr d o
      let (c, _) ← bdsCacheFree d h.cache (some o.slab) p
      some ⟨c, h.live.erase o⟩
    else none

/-- From a cache just created, with any `colour_next`, which is not reset. -/
def cacheSystem (d : CacheDesc) : Lib.System Heap Call where
  init h := ∃ colourNext, h = ⟨⟨colourNext, 0, 0, 0, [], [], [], []⟩, []⟩
  step := call d

end SeamlessStack.Slab

import Mathlib.Data.List.Lex
import SeamlessStack.Lib.Except
import SeamlessStack.Lib.RedBlack

/-! The cache of file data. An entry is known by a hash of 32 bytes, which a red-black tree compares
as bytes and memcached takes as a text that ends at the first zero. Once an entry is stored the tree
points into it, and deleting its node frees it. -/
namespace SeamlessStack.DataCache
open Lib RbTree

def digestLength : ℕ := 32

def Key : Type := {bytes : List UInt8 // bytes.length = digestLength}
  deriving DecidableEq

def Key.text (k : Key) : List UInt8 := k.1.takeWhile (· ≠ 0)

def Key.order (k : Key) : List ℕ := k.1.map UInt8.toNat

/-- What some C library's `memcmp` returns on two keys: the standard fixes the sign only. -/
structure Memcmp where
  value : Key → Key → ℤ
  neg_iff : ∀ a b, value a b < 0 ↔ a.order < b.order
  pos_iff : ∀ a b, 0 < value a b ↔ b.order < a.order

def compareFunc (M : Memcmp) (val1 val2 : Key) : ℤ :=
  if M.value val1 val2 = -1 then -1
  else if M.value val1 val2 = 1 then 1
  else 0

abbrev Data : Type := List UInt8

/-- The union of an entry, with `on_ssd` as its tag; of the connection only whether there is one. -/
inductive Place
  | memcache (mc : Bool)
  | ssdcache (handle : UInt32) (entry : ℤ) (len : ℕ)
  deriving DecidableEq, Repr

structure Entry where
  hashkey : Key
  place : Place
  deriving DecidableEq

/-- A node of the tree: the entry its pointers lead to, the key there, and its identity. -/
structure Node where
  key : Key
  info : ℕ
  id : ℕ
  deriving DecidableEq

/-- Entries are known by their number in the order of allocation, and are `none` once freed. -/
structure Cache where
  entries : List (Option Entry)
  tree : RbTree Node
  nodes : ℕ
  memcached : List UInt8 → Option Data
  ssd : UInt32 → ℤ → Option Data

/-- Using memory that was freed, or the member of the union that was not written. -/
inductive Fault
  | freed
  | member
  deriving DecidableEq, Repr

namespace Cache

def Live (c : Cache) (entry : ℕ) : Prop := (c.entries[entry]?.join).isSome = true

instance (c : Cache) (entry : ℕ) : Decidable (c.Live entry) :=
  inferInstanceAs (Decidable (_ = true))

def entry (c : Cache) (entry : ℕ) : Except Fault Entry :=
  match c.entries[entry]?.join with
  | some e => .ok e
  | none => .error .freed

def readKeys (c : Cache) (nodes : List Node) : Except Fault Unit :=
  require (∀ n ∈ nodes, c.Live n.info) .freed

/-- The node with the key, as its place in the tree; `nil` is the null pointer. -/
def rbExactQuery (M : Memcmp) (c : Cache) (q : Key) :
    Except Fault (RbTree Node × List (Crumb Node)) := do
  let place := locate (fun n => compareFunc M n.key q) c.tree []
  c.readKeys (compared place)
  return place

def rbTreeInsert (M : Memcmp) (c : Cache) (node : Node) : Except Fault Cache := do
  let cmp := fun n : Node => compareFunc M n.key node.key
  c.readKeys ((c.tree.descent cmp).map Crumb.item)
  return { c with tree := c.tree.insert cmp node, nodes := c.nodes + 1 }

/-- The tree's functions do nothing to the key and free the entry. -/
def rbDelete (c : Cache) : RbTree Node × List (Crumb Node) → Cache
  | (.node color l n r, path) =>
    { c with
      tree := deleteAt (.node color l n r) path
      entries := c.entries.set n.info none }
  | (.nil, _) => c

/-! ### Memcached, which never lacks memory -/

def sstackMemcacheStore (c : Cache) (mc : Bool) (key : List UInt8) (value : Data) : ℤ × Cache :=
  if value = [] ∨ mc = false then (-1, c)
  else (0, { c with memcached := Function.update c.memcached key (some value) })

/-- A key that is not there gives `-MEMCACHED_NOTFOUND`. -/
def sstackMemcacheRemove (c : Cache) (mc : Bool) (key : List UInt8) : ℤ × Cache :=
  if mc = false then (-1, c)
  else if c.memcached key = none then (-16, c)
  else (0, { c with memcached := Function.update c.memcached key none })

def sstackMemcacheReadOne (c : Cache) (mc : Bool) (key : List UInt8) : Option Data :=
  if mc = false ∨ key = [] then none else c.memcached key

end Cache

/-! ### The SSD. Its functions have no bodies in the source; these do what their names say. -/

namespace Cache

def ssdCacheRetrieve (c : Cache) (handle : UInt32) (entry : ℤ) (size : ℕ) : Option Data :=
  (c.ssd handle entry).map (·.take size)

def ssdCachePurge (c : Cache) (handle : UInt32) (entry : ℤ) : Cache :=
  { c with ssd := Function.update c.ssd handle (Function.update (c.ssd handle) entry none) }

end Cache

def Entry.mc (e : Entry) : Except Fault Bool :=
  match e.place with
  | .memcache mc => .ok mc
  | .ssdcache .. => .error .member

/-! ### The calls -/

def sstackAllocateCacheEntry (c : Cache) (hashkey : Key) (mc : Bool) : ℕ × Cache :=
  (c.entries.length, { c with entries := c.entries ++ [some ⟨hashkey, .memcache mc⟩] })

/-- `lru` says whether `lru_insert_entry` gets its memory. -/
def sstackCacheStore (M : Memcmp) (c : Cache) (data : Option Data) (entry : Option ℕ) (lru : Bool) :
    Except Fault (ℤ × Cache) :=
  match entry, data with
  | some info, some value =>
    if value = [] then .ok (-1, c)
    else do
      let e ← c.entry info
      let mc ← e.mc
      let stored := c.sstackMemcacheStore mc e.hashkey.text value
      if stored.1 ≠ 0 then .ok (-1, stored.2)
      else do
        let c ← stored.2.rbTreeInsert M ⟨e.hashkey, info, c.nodes⟩
        if lru then .ok (0, c)
        else
          let c := (c.sstackMemcacheRemove mc e.hashkey.text).2
          .ok (-1, c.rbDelete ((c.tree.placeOf (·.id + 1 = c.nodes) []).getD (.nil, [])))
  | _, _ => .ok (-1, c)

def sstackCacheGet (M : Memcmp) (c : Cache) (hashkey : Option Key) (size : ℕ) :
    Except Fault (Option Data) :=
  match hashkey with
  | none => .ok none
  | some k => do
    let place ← c.rbExactQuery M k
    match place.1 with
    | .nil => .ok none
    | .node _ _ n _ => do
      let e ← c.entry n.info
      match e.place with
      | .ssdcache handle i len =>
        .ok (if len < size then none else c.ssdCacheRetrieve handle i size)
      | .memcache mc => .ok (c.sstackMemcacheReadOne mc k.text)

/-- Memcached is asked to remove the key of the entry that was found, not the key of the call. -/
def sstackCachePurge (M : Memcmp) (c : Cache) (hashkey : Option Key) : Except Fault (ℤ × Cache) :=
  match hashkey with
  | none => .ok (-1, c)
  | some k => do
    let place ← c.rbExactQuery M k
    match place.1 with
    | .nil => .ok (-1, c)
    | .node _ _ n _ => do
      let e ← c.entry n.info
      match e.place with
      | .ssdcache handle i _ =>
        .ok (0, (c.ssdCachePurge handle i).rbDelete place)
      | .memcache mc =>
        let removed := c.sstackMemcacheRemove mc e.hashkey.text
        if removed.1 = -1 then .ok (-1, removed.2) else .ok (0, removed.2.rbDelete place)

end SeamlessStack.DataCache

import SeamlessStack.Lib.LeftLeaning

/-! The tree of storages, by address and path. What the removal that `rb.h` generates does is left
open, since no search comes to it. -/
namespace SeamlessStack.Sfs.StorageTree

open Lib

def efault : ℤ := 14
def stnodeMagic : BitVec 32 := 0xb3b3b3b3

inductive Protocol
  | nfs
  | cifs
  | iscsi
  | native
  deriving DecidableEq, Repr

inductive StorageType
  | hdd
  | ssd
  deriving DecidableEq, Repr

abbrev Address := { bytes : List UInt8 // bytes.length = 4 + 40 }

abbrev Path := { chars : List UInt8 // chars.length < 4096 ∧ 0 ∉ chars }

/-- What `storage_tree_cmp` looks at. -/
structure StorageKey where
  magic : BitVec 32
  address : Address
  rpath : Path
  deriving DecidableEq

/-- `struct storage_node` without the links. -/
structure StorageNode extends StorageKey where
  accessProtocol : Protocol
  type : StorageType
  size : BitVec 64
  deriving DecidableEq

def memcmp : List UInt8 → List UInt8 → ℤ
  | a :: as, b :: bs => if a = b then memcmp as bs else (a.toNat : ℤ) - b.toNat
  | _, _ => 0

def strcmp (s t : List UInt8) : ℤ := memcmp (s ++ [0]) (t ++ [0])

/-- An address that is equal leaves `ret` as it was initialised. -/
def storageTreeCmp (node1 node2 : StorageKey) : ℤ :=
  if node1.magic ≠ stnodeMagic ∨ node2.magic ≠ stnodeMagic then efault
  else
    let cmp := memcmp node1.address.val node2.address.val
    let ret : ℤ := -1
    let ret := if cmp > 0 then 1 else if cmp < 0 then -1 else ret
    if ret = 0 then
      let cmp := strcmp node1.rpath.val node2.rpath.val
      if cmp > 0 then 1 else if cmp < 0 then -1 else ret
    else ret

abbrev Tree := RbTree StorageNode

def storageTreeSearch (t : Tree) (key : StorageKey) : Option StorageNode :=
  LeftLeaning.search (fun node => storageTreeCmp key node.toStorageKey) t

def storageTreeInsert (t : Tree) (node : StorageNode) : Tree :=
  LeftLeaning.insert (fun other => storageTreeCmp node.toStorageKey other.toStorageKey) node t

/-- `allocated` is whether `malloc` has memory for the node. -/
def sfsStorageNodeInsert (t : Tree) (address : Address) (path : Path) (proto : Protocol)
    (type : StorageType) (size : BitVec 64) (allocated : Bool) : ℤ × Tree :=
  if allocated then
    (0, storageTreeInsert t ⟨⟨stnodeMagic, address, path⟩, proto, type, size⟩)
  else (-1, t)

section Calls
variable (storageTreeRemove : Tree → StorageNode → Tree)

/-- What `errno` is set to, if it is, and the tree. -/
def sfsStorageNodeRemove (t : Tree) (address : Address) (path : Path) : Option ℤ × Tree :=
  match storageTreeSearch t ⟨stnodeMagic, address, path⟩ with
  | none => (some efault, t)
  | some node => (none, storageTreeRemove t node)

def sfsStorageNodeUpdate (t : Tree) (address : Address) (path : Path) (size : BitVec 64) :
    Option ℤ × Tree :=
  match storageTreeSearch t ⟨stnodeMagic, address, path⟩ with
  | none => (some efault, t)
  | some node => (none, storageTreeInsert (storageTreeRemove t node) { node with size })

inductive Call
  | insert (address : Address) (path : Path) (proto : Protocol) (type : StorageType)
      (size : BitVec 64) (allocated : Bool)
  | remove (address : Address) (path : Path)
  | update (address : Address) (path : Path) (size : BitVec 64)

/-- What `errno` is set to, and the tree after the call. -/
def call (t : Tree) : Call → Option ℤ × Tree
  | .insert address path proto type size allocated =>
    (none, (sfsStorageNodeInsert t address path proto type size allocated).2)
  | .remove address path => sfsStorageNodeRemove storageTreeRemove t address path
  | .update address path size => sfsStorageNodeUpdate storageTreeRemove t address path size

abbrev Contents := Address × Path → Option (BitVec 64)

/-- What a call should do to the contents. -/
def Call.apply (m : Contents) : Call → Contents
  | .insert address path _ _ size allocated =>
    if allocated then Function.update m (address, path) (some size) else m
  | .remove address path => Function.update m (address, path) none
  | .update address path size =>
    if m (address, path) = none then m else Function.update m (address, path) (some size)

def Call.searched : Call → Option (Address × Path)
  | .insert .. => none
  | .remove address path => some (address, path)
  | .update address path _ => some (address, path)

def Call.inserted : Call → Option (Address × Path)
  | .insert address path .. => some (address, path)
  | .remove .. | .update .. => none

def StorageNode.pair (node : StorageNode) : Address × Path := (node.address, node.rpath)

/-- The tree holds each pair once, with its size, and no others. -/
structure Holds (t : Tree) (m : Contents) : Prop where
  nodup : (t.toList.map StorageNode.pair).Nodup
  mem_iff : ∀ pair size,
    m pair = some size ↔ ∃ node ∈ t.toList, node.pair = pair ∧ node.size = size

/-- A search for a pair that is there succeeds; any other sets `errno` and changes nothing. -/
structure CallRight (t : Tree) (m : Contents) (c : Call) : Prop where
  holds : Holds (call storageTreeRemove t c).2 (c.apply m)
  present : ∀ pair ∈ c.searched, m pair ≠ none → (call storageTreeRemove t c).1 = none
  absent : ∀ pair ∈ c.searched, m pair = none → call storageTreeRemove t c = (some efault, t)

/-- The run is right at every call. -/
def CallsRight : Tree → Contents → List Call → Prop
  | _, _, [] => True
  | t, m, c :: calls => CallRight storageTreeRemove t m c ∧
      CallsRight (call storageTreeRemove t c).2 (c.apply m) calls

end Calls

/-- Pairs are inserted only while they are absent. -/
def InsertsAbsent : Contents → List Call → Prop
  | _, [] => True
  | m, c :: calls => (∀ pair ∈ c.inserted, m pair = none) ∧ InsertsAbsent (c.apply m) calls

/-- No pair is removed or updated while it is present. -/
def SearchesAbsent : Contents → List Call → Prop
  | _, [] => True
  | m, c :: calls => (∀ pair ∈ c.searched, m pair = none) ∧ SearchesAbsent (c.apply m) calls

theorem storageTreeCmp_ne_zero (node1 node2 : StorageKey) : storageTreeCmp node1 node2 ≠ 0 := by
  unfold storageTreeCmp
  by_cases hmagic : node1.magic ≠ stnodeMagic ∨ node2.magic ≠ stnodeMagic
  · rw [if_pos hmagic]
    decide
  rw [if_neg hmagic]
  dsimp only
  -- whatever the addresses, `ret` is 1 or -1 when the paths would be compared
  by_cases hpos : memcmp node1.address.val node2.address.val > 0
  · rw [if_pos hpos, if_neg one_ne_zero]
    exact one_ne_zero
  · rw [if_neg hpos, ite_self, if_neg (by decide)]
    decide

theorem storageTreeSearch_eq_none (t : Tree) (key : StorageKey) :
    storageTreeSearch t key = none := by
  apply LeftLeaning.search_eq_none
  intro node
  exact storageTreeCmp_ne_zero key node.toStorageKey

variable {storageTreeRemove : Tree → StorageNode → Tree} {t : Tree} {m : Contents} {c : Call}

theorem call_searched {pair : Address × Path} (h : pair ∈ c.searched) :
    call storageTreeRemove t c = (some efault, t) := by
  cases c with
  | insert address path proto type size allocated => cases h
  | remove address path =>
    simp only [call, sfsStorageNodeRemove, storageTreeSearch_eq_none]
  | update address path size =>
    simp only [call, sfsStorageNodeUpdate, storageTreeSearch_eq_none]

theorem apply_of_absent {pair : Address × Path} (h : pair ∈ c.searched) (habsent : m pair = none) :
    c.apply m = m := by
  cases c with
  | insert address path proto type size allocated => cases h
  | remove address path =>
    obtain rfl := Option.some.inj h
    exact Function.update_eq_self_iff.mpr habsent.symm
  | update address path size =>
    obtain rfl := Option.some.inj h
    exact if_pos habsent

theorem Holds.insert (h : Holds t m) (node : StorageNode) (habsent : m node.pair = none) :
    Holds (storageTreeInsert t node) (Function.update m node.pair (some node.size)) := by
  have hperm : (storageTreeInsert t node).toList.Perm (node :: t.toList) :=
    LeftLeaning.insert_perm _ node t
  have hnew : node.pair ∉ t.toList.map StorageNode.pair := by
    intro hmem
    obtain ⟨other, hother, hpair⟩ := List.mem_map.mp hmem
    have hpresent := (h.mem_iff node.pair other.size).mpr ⟨other, hother, hpair, rfl⟩
    rw [habsent] at hpresent
    cases hpresent
  constructor
  · rw [(hperm.map StorageNode.pair).nodup_iff, List.map_cons, List.nodup_cons]
    exact ⟨hnew, h.nodup⟩
  · intro pair size
    simp only [hperm.mem_iff, List.mem_cons, or_and_right, exists_or, exists_eq_left]
    by_cases hpair : pair = node.pair
    · subst hpair
      rw [Function.update_self, Option.some.injEq]
      constructor
      · exact fun hsize => .inl ⟨rfl, hsize⟩
      · rintro (⟨-, hsize⟩ | ⟨other, hother, hpair, -⟩)
        · exact hsize
        · exact absurd (List.mem_map.mpr ⟨other, hother, hpair⟩) hnew
    · rw [Function.update_of_ne hpair, h.mem_iff]
      constructor
      · exact .inr
      · rintro (⟨hsame, -⟩ | hother)
        · exact absurd hsame.symm hpair
        · exact hother

theorem CallRight.of_insert (h : Holds t m) (hsearched : c.searched = none)
    (hinserted : ∀ pair ∈ c.inserted, m pair = none) : CallRight storageTreeRemove t m c := by
  refine ⟨?_, by simp [hsearched], by simp [hsearched]⟩
  cases c with
  | insert address path proto type size allocated =>
    cases allocated with
    | false => exact h
    | true =>
      exact h.insert ⟨⟨stnodeMagic, address, path⟩, proto, type, size⟩
        (hinserted (address, path) rfl)
  | remove address path => cases hsearched
  | update address path size => cases hsearched

theorem callRight_iff_absent (h : Holds t m) {pair : Address × Path} (hpair : pair ∈ c.searched) :
    CallRight storageTreeRemove t m c ↔ m pair = none := by
  constructor
  · intro hright
    by_contra hpresent
    have hfound := hright.present pair hpair hpresent
    rw [call_searched hpair] at hfound
    cases hfound
  · intro habsent
    refine ⟨?_, fun pair' hpair' hpresent => ?_, fun pair' hpair' _ => call_searched hpair'⟩
    · rw [call_searched hpair, apply_of_absent hpair habsent]
      exact h
    · obtain rfl := Option.mem_unique hpair hpair'
      exact absurd habsent hpresent

theorem callsRight_iff {calls : List Call} (h : Holds t m) (hinserts : InsertsAbsent m calls) :
    CallsRight storageTreeRemove t m calls ↔ SearchesAbsent m calls := by
  induction calls generalizing t m with
  | nil => exact Iff.rfl
  | cons c calls ih =>
    obtain ⟨hinserted, hinserts⟩ := hinserts
    have hright : CallRight storageTreeRemove t m c ↔ ∀ pair ∈ c.searched, m pair = none := by
      cases hsearched : c.searched with
      | none => exact iff_of_true (.of_insert h hsearched hinserted) (by simp)
      | some pair => simp [callRight_iff_absent h hsearched]
    unfold CallsRight SearchesAbsent
    rw [hright]
    refine and_congr_right fun habsent => ?_
    exact ih (hright.mpr habsent).holds hinserts

theorem holds_empty : Holds .nil fun _ => none :=
  ⟨List.nodup_nil, fun _ _ => iff_of_false (by simp) (by simp [RbTree.toList])⟩

/-- A run from the empty tree is right just if it removes and updates nothing that is there. -/
theorem storageTree_iff (storageTreeRemove : Tree → StorageNode → Tree) (calls : List Call)
    (hinserts : InsertsAbsent (fun _ => none) calls) :
    CallsRight storageTreeRemove .nil (fun _ => none) calls ↔
      SearchesAbsent (fun _ => none) calls :=
  callsRight_iff holds_empty hinserts

theorem zeroAddress_length : (List.replicate 44 (0 : UInt8)).length = 4 + 40 := rfl

theorem rootPath_path : ([47] : List UInt8).length < 4096 ∧ 0 ∉ ([47] : List UInt8) := by decide

def zeroAddress : Address := ⟨List.replicate 44 0, zeroAddress_length⟩

def rootPath : Path := ⟨[47], rootPath_path⟩

def insertRoot : Call := .insert zeroAddress rootPath .nfs .hdd 1 true

/-- A removal of what is not there, and an insertion. -/
theorem storageTree_insert_only :
    CallsRight (fun t _ => t) .nil (fun _ => none) [.remove zeroAddress rootPath, insertRoot] := by
  rw [storageTree_iff]
  · simp [SearchesAbsent, Call.searched, insertRoot]
  · simp [InsertsAbsent, Call.inserted, Call.apply, insertRoot]

/-- A pair that was inserted is not found for its removal. -/
theorem storageTree_keeps_removed :
    InsertsAbsent (fun _ => none) [insertRoot, .remove zeroAddress rootPath] ∧
      ∀ storageTreeRemove : Tree → StorageNode → Tree,
        call storageTreeRemove (call storageTreeRemove .nil insertRoot).2
            (.remove zeroAddress rootPath) =
          (some efault, .node false .nil
            ⟨⟨stnodeMagic, zeroAddress, rootPath⟩, .nfs, .hdd, 1⟩ .nil) ∧
        ¬ CallsRight storageTreeRemove .nil (fun _ => none)
          [insertRoot, .remove zeroAddress rootPath] := by
  have hinserts : InsertsAbsent (fun _ => none) [insertRoot, .remove zeroAddress rootPath] := by
    simp [InsertsAbsent, Call.inserted, insertRoot]
  refine ⟨hinserts, fun storageTreeRemove => ⟨call_searched rfl, ?_⟩⟩
  rw [callsRight_iff holds_empty hinserts]
  simp [SearchesAbsent, Call.searched, Call.apply, insertRoot]

end SeamlessStack.Sfs.StorageTree

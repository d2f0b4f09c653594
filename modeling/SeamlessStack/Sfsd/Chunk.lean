import Mathlib.Tactic

/-! Chunks of storage, extents and their handles: how a handle leads back to the extent and to its
file. -/
namespace SeamlessStack.Sfsd

abbrev Name := List Char

def pathMax : ℕ := 4096

inductive Protocol
  | nfs
  | cifs
  | iscsi
  | native
  deriving DecidableEq, Repr

inductive NetworkProtocol
  | ipv4
  | ipv6
  deriving DecidableEq, Repr

/-- `text` is the string in the union, which `strncmp` compares as far as the union goes. -/
structure Address where
  protocol : NetworkProtocol
  text : Name
  deriving DecidableEq, Repr

/-- The part of `sfsd_storage_t` that the functions below read. -/
structure Storage where
  path : Name
  mountPoint : Name
  protocol : Protocol
  address : Address
  deriving DecidableEq, Repr

structure FileHandle where
  nameLen : ℕ
  name : Name
  proto : Protocol
  address : Address
  deriving DecidableEq, Repr

/-- `sstack_extent_t` with one replica. -/
structure Extent where
  offset : BitVec 64
  size : BitVec 64
  sizeOnDisk : BitVec 64
  cksum : BitVec 32
  numreplicas : ℕ
  path : FileHandle
  deriving DecidableEq, Repr

def matchExtent (h₁ h₂ : FileHandle) : Bool :=
  h₁.proto = h₂.proto ∧ h₁.address.text = h₂.address.text ∧ h₁.name = h₂.name

/-- The tests of `get_mount_path`; `strstr` finds the export anywhere in the name. -/
def Storage.serves (storage : Storage) (handle : FileHandle) : Bool :=
  handle.proto = storage.protocol ∧ handle.address.text = storage.address.text ∧
    handle.address.protocol = storage.address.protocol ∧ storage.path <:+: handle.name

def getMountPath (chunks : List Storage) (handle : FileHandle) : Option Storage :=
  chunks.find? (·.serves handle)

/-- The index of the extent and the mounted path; `none`: an error. A negative `index` asks for a
search by the handle. -/
def getExtent (extents : List Extent) (index : ℤ) (handle : FileHandle) (chunks : List Storage) :
    Option (ℕ × Name) :=
  if index > extents.length then none
  else do
    let i ← if index ≥ 0 then some index.toNat
      else extents.findIdx? fun e => matchExtent handle e.path
    let storage ← getMountPath chunks handle
    return (i, storage.mountPoint ++ handle.name.drop storage.path.length)

theorem matchExtent_self (h : FileHandle) : matchExtent h h = true := by
  simp [matchExtent]

theorem getExtent_search {extents : List Extent} {handle : FileHandle} {chunks : List Storage}
    {i : ℕ} {storage : Storage}
    (hi : extents.findIdx? (fun e => matchExtent handle e.path) = some i)
    (hs : getMountPath chunks handle = some storage) :
    getExtent extents (-1) handle chunks =
      some (i, storage.mountPoint ++ handle.name.drop storage.path.length) := by
  unfold getExtent
  rw [if_neg (by omega), if_neg (by decide), hi, hs]
  rfl

theorem getMountPath_eq {chunks : List Storage} {handle : FileHandle} {c : ℕ} {storage : Storage}
    (hc : chunks[c]? = some storage) (hserves : storage.serves handle = true)
    (hbefore : ∀ i < c, ∀ other, chunks[i]? = some other → other.serves handle = false) :
    getMountPath chunks handle = some storage := by
  unfold getMountPath
  obtain ⟨hlt, hget⟩ := List.getElem?_eq_some_iff.mp hc
  rw [List.find?_eq_some_iff_getElem]
  refine ⟨hserves, c, hlt, hget, ?_⟩
  intro j hj
  rw [hbefore j hj _ (List.getElem?_eq_getElem (by omega))]
  rfl

end SeamlessStack.Sfsd

import SeamlessStack.Lib.Memory

/-! `flatten_inode` and `fill_inode`: the record of an inode in the database. Sizes and offsets are
those on x86_64. The sizes that `size_t` holds do not wrap, but the `int covered` of `fill_inode`
does. -/
namespace SeamlessStack.Metadata

open Lib

def fileHandleSize : ℕ := 4152
def extentSize : ℕ := 40
def cksumSize : ℕ := 4
def pointerSize : ℕ := 8

def getInodeFixedFieldsLen : ℕ := 4272
def getExtentFixedFieldsLen : ℕ := 32

def numclientsOffset : ℕ := 4236
def numerasureOffset : ℕ := 4240
def numextentsOffset : ℕ := 4248
def xattrlenOffset : ℕ := 4252
def cksumOffset : ℕ := 24
def numreplicasOffset : ℕ := 28

def toInt (x : ℤ) : ℤ := if x % 4294967296 < 2147483648 then x % 4294967296
  else x % 4294967296 - 4294967296

/-- An extent in memory: its fixed fields, and the handles that `e_path` points to. -/
structure Extent where
  fixed : List UInt8
  path : List UInt8
  numreplicas : ℕ
  fixed_length : fixed.length = getExtentFixedFieldsLen
  path_length : path.length = numreplicas * fileHandleSize
  numreplicas_eq : (Block.ofBytes fixed).u32 numreplicasOffset = some numreplicas

/-- A segment of `i_erasure`, whose `e_path` points to one handle at `address`. -/
structure Erasure where
  fixed : List UInt8
  address : List UInt8
  handle : List UInt8
  fixed_length : fixed.length = getExtentFixedFieldsLen
  address_length : address.length = pointerSize
  handle_length : handle.length = fileHandleSize

/-- An inode in memory, with arrays of the sizes that its fixed fields say. -/
structure Inode where
  fixed : List UInt8
  xattr : List UInt8
  erasure : List Erasure
  extents : List Extent
  numclients : ℕ
  sfsds : List UInt8
  fixed_length : fixed.length = getInodeFixedFieldsLen
  xattr_eq : (Block.ofBytes fixed).u32 xattrlenOffset = some xattr.length
  xattr_lt : xattr.length < 2147483648
  erasure_eq : (Block.ofBytes fixed).u32 numerasureOffset = some erasure.length
  extents_eq : (Block.ofBytes fixed).u32 numextentsOffset = some extents.length
  extents_lt : extents.length < 2147483648
  numclients_eq : (Block.ofBytes fixed).u32 numclientsOffset = some numclients
  numclients_lt : numclients < 2147483648
  sfsds_length : sfsds.length = pointerSize * (numclients - 1)

/-- Where the functions allocate; `i` is the iteration. -/
inductive Site
  | fixed
  | xattr
  | erasurePath (i : ℕ)
  | erasure (i : ℕ)
  | extent (i : ℕ)
  | path (i : ℕ)
  | sfsds
  deriving DecidableEq, Repr

/-- Whether there is memory, whether `realloc` moves the block, and the addresses of handles. -/
structure Env where
  ok : Site → Bool
  moved : Site → Bool
  address : ℕ → Fin 8 → UInt8

/-- How a function ends early: by an access that is not allowed, or by an error return. -/
inductive Stop
  | outside
  | freed
  | null
  | nomem
  deriving DecidableEq, Repr

def access {α : Type} : Option α → Except Stop α
  | some a => .ok a
  | none => .error .outside

def allocate (env : Env) (site : Site) : Except Stop Unit :=
  if env.ok site then .ok () else .error .nomem

def allocateUntested (env : Env) (site : Site) : Except Stop Unit :=
  if env.ok site then .ok () else .error .null

/-- The record under construction; `len` is what the function returns as its length. -/
structure Record where
  data : Block
  len : ℕ
  deriving Repr

def Record.extend (r : Record) (env : Env) (site : Site) (src : Block) : Except Stop Record := do
  allocate env site
  let data ← access ((r.data.realloc (r.len + src.length)).write r.len src)
  return ⟨data, r.len + src.length⟩

/-- The result of this `realloc` is not assigned to `data`. -/
def flattenXattr (env : Env) (inode : Inode) (r : Record) : Except Stop Record :=
  if inode.xattr.length > 0 then do
    let r' ← r.extend env .xattr (Block.ofBytes inode.xattr)
    if env.moved .xattr then .error .freed else return r'
  else return r

def erasureArray (erasure : List Erasure) : Block :=
  erasure.flatMap fun er => Block.ofBytes (er.fixed ++ er.address)

/-- The copy of the checksum takes `sizeof(sstack_extent_t)` bytes. -/
def flattenErasure (env : Env) (array : Block) : ℕ → List Erasure → Record → Except Stop Record
  | _, [], r => return r
  | i, er :: rest, r => do
    allocate env (.erasure i)
    let data := r.data.realloc (r.len + fileHandleSize + cksumSize)
    let data ← access (data.write r.len (Block.ofBytes er.handle))
    let len := r.len + fileHandleSize
    let cksum ← access (array.read (extentSize * i + cksumOffset) extentSize)
    let data ← access (data.write len cksum)
    flattenErasure env array (i + 1) rest ⟨data, len + extentSize⟩

def flattenExtents (env : Env) : ℕ → List Extent → Record → Except Stop Record
  | _, [], r => return r
  | i, ex :: rest, r => do
    let r ← r.extend env (.extent i) (Block.ofBytes ex.fixed)
    let r ← r.extend env (.path i) (Block.ofBytes ex.path)
    flattenExtents env (i + 1) rest r

/-- `len` counts the primary sfsd, which is not copied. -/
def flattenSfsds (env : Env) (inode : Inode) (r : Record) : Except Stop Record :=
  if inode.numclients ≠ 0 then do
    let r' ← r.extend env .sfsds (Block.ofBytes inode.sfsds)
    return ⟨r'.data, r.len + pointerSize * inode.numclients⟩
  else return r

def flattenInode (env : Env) (inode : Inode) : Except Stop Record := do
  allocate env .fixed
  let r ← flattenXattr env inode ⟨Block.ofBytes inode.fixed, getInodeFixedFieldsLen⟩
  let r ← flattenErasure env (erasureArray inode.erasure) 0 inode.erasure r
  let r ← flattenExtents env 0 inode.extents r
  flattenSfsds env inode r

def Env.pointer (env : Env) (p : ℕ) : Block := Block.ofBytes (List.ofFn (env.address p))

/-- The arrays of the inode that `fill_inode` is given before it runs. -/
structure Target where
  xattr : Block

/-- The inode after `fill_inode`; the `e_path` of an extent points to one of the `handles`. -/
structure Filled where
  fixed : Block
  xattr : Block
  erasure : Block
  extents : Block
  sfsds : Block
  handles : List Block
  deriving Repr

/-- A loop of `fill_inode`: the record, which is also written to, `covered`, the array that grows,
and the handles so far. -/
structure Walk where
  data : Block
  covered : ℤ
  array : Block
  handles : List Block
  deriving Repr

/-- One iteration over the segments. `er` stays at the end of the fixed fields. -/
def fillErasure (env : Env) (cur : ℤ) (i : ℕ) (w : Walk) : Except Stop Walk := do
  let er : ℤ := getInodeFixedFieldsLen
  allocate env (.erasurePath i)
  let handle ← access (w.data.read (cur + w.covered) fileHandleSize)
  let data ← access (w.data.write (er + getExtentFixedFieldsLen) (env.pointer w.handles.length))
  let covered := toInt (w.covered + fileHandleSize)
  let cksum ← access (data.read (cur + covered) cksumSize)
  let data ← access (data.write (er + cksumOffset) cksum)
  let covered := toInt (covered + cksumSize)
  allocate env (.erasure i)
  let segment ← access (data.read er extentSize)
  let array ← access ((w.array.realloc (extentSize + covered).toNat).write covered segment)
  return ⟨data, toInt (covered + 4), array, w.handles ++ [handle]⟩

/-- One iteration over the extents. -/
def fillExtent (env : Env) (cur : ℤ) (i : ℕ) (w : Walk) : Except Stop Walk := do
  let numreplicas ← access (w.data.u32 (cur + w.covered + numreplicasOffset))
  allocate env (.path i)
  let path ← access (w.data.read (cur + getExtentFixedFieldsLen + w.covered)
    (numreplicas * fileHandleSize))
  let data ← access (w.data.write (cur + w.covered + getExtentFixedFieldsLen)
    (env.pointer w.handles.length))
  allocateUntested env (.extent i)
  let ex ← access (data.read (cur + w.covered) extentSize)
  let array ← access ((w.array.realloc (extentSize + w.covered).toNat).write w.covered ex)
  return ⟨data, toInt (w.covered + (extentSize + numreplicas * fileHandleSize : ℕ)), array,
    w.handles ++ [path]⟩

def iterate (body : ℕ → Walk → Except Stop Walk) : ℕ → ℕ → Walk → Except Stop Walk
  | 0, _, w => return w
  | n + 1, i, w => do
    let w ← body i w
    iterate body n (i + 1) w

/-- The copy of the pointers to all sfsds but the primary one. -/
def fillSfsds (w : Walk) (numclients : ℕ) : Except Stop Block :=
  let sfsds : Block := List.replicate (pointerSize * numclients) .undef
  if 1 < numclients then do
    let copied ← access (w.data.read (getInodeFixedFieldsLen + w.covered)
      (pointerSize * (numclients - 1)))
    access (sfsds.write 0 copied)
  else return sfsds

/-- The extended attributes are copied to a block that is not stored in the inode. -/
def fillXattr (env : Env) (data : Block) (xattrlen : ℕ) : Except Stop Unit :=
  if 0 < xattrlen then do
    allocate env .xattr
    let _ ← access (data.read getInodeFixedFieldsLen xattrlen)
    return ()
  else return ()

/-- Only the segments are looked for behind the extended attributes. -/
def fillInode (env : Env) (target : Target) (data : Block) : Except Stop Filled := do
  let fixed ← access (data.read 0 getInodeFixedFieldsLen)
  let xattrlen ← access (data.u32 xattrlenOffset)
  let xattrlen := (toInt xattrlen).toNat
  fillXattr env data xattrlen
  let numerasure ← access (data.u32 numerasureOffset)
  let w ← iterate (fillErasure env (getInodeFixedFieldsLen + xattrlen)) numerasure 0
    ⟨data, 0, [], []⟩
  let erasure := w.array
  let numextents ← access (w.data.u32 numextentsOffset)
  let w ← iterate (fillExtent env (getInodeFixedFieldsLen + w.covered)) (toInt numextents).toNat 0
    ⟨w.data, 0, [], w.handles⟩
  allocate env .sfsds
  let numclients ← access (fixed.u32 numclientsOffset)
  let sfsds ← fillSfsds w (toInt numclients).toNat
  return ⟨fixed, target.xattr, erasure, w.array, sfsds, w.handles⟩

end SeamlessStack.Metadata

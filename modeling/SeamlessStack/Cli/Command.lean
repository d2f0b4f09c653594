import Mathlib.Tactic
import SeamlessStack.Lib.Except

/-! The commands of the CLI, written to a buffer and read back: each field is preceded by a length
of 16 bits. -/
namespace SeamlessStack.Cli
open Lib

def sfscliMaxBufferSize : ℕ := 16384

/-- The kinds of commands that are sent. -/
inductive Kind
  | policy
  | storage
  | sfsd
  | license
  deriving DecidableEq, Repr

/-- `subCmd` is the union of `policy_cmd`, `storage_cmd`, `sfsd_cmd` and `license_cmd`. -/
inductive NumField
  | cmd
  | subCmd
  | piUid
  | piGid
  | piNumPolicy
  | ver
  | aQuota
  | aQoslevel
  | aIshidden
  | aNumreplicas
  | aEnableDr
  | piIndex
  | protocol
  | accessProtocol
  | storageType
  | size
  | port
  deriving DecidableEq, Repr

def NumField.bytes : NumField → ℕ
  | .piNumPolicy | .size => 8
  | .port => 2
  | .aQoslevel | .aIshidden | .aNumreplicas | .aEnableDr => 1
  | _ => 4

/-- The character arrays. `address` is the union of `ipv4_address` and `ipv6_address`. -/
inductive StrField
  | piPolicyTag (i : Fin 64)
  | piFtype
  | piFname
  | address
  | rpath
  | licensePath
  deriving DecidableEq, Repr

def StrField.cap : StrField → ℕ
  | .piPolicyTag _ => 16
  | .piFtype => 8
  | .address => 40
  | .piFname | .rpath | .licensePath => 4096

def CharArray (n : ℕ) : Type := { l : List UInt8 // l.length = n }

instance (n : ℕ) : DecidableEq (CharArray n) :=
  inferInstanceAs (DecidableEq { l : List UInt8 // l.length = n })

def CharArray.memcpy {n : ℕ} (a : CharArray n) (src : List UInt8) : CharArray n :=
  ⟨(src ++ a.1.drop src.length).take n, by
    have := a.2
    simp only [List.length_take, List.length_append, List.length_drop]
    omega⟩

/-- A `struct sfscli_cli_cmd`, as the fields that the kinds of commands use. -/
structure CliCmd where
  num : (f : NumField) → BitVec (8 * f.bytes)
  str : (f : StrField) → CharArray f.cap

def CliCmd.setNum (c : CliCmd) (f : NumField) (v : BitVec (8 * f.bytes)) : CliCmd :=
  { c with num := Function.update c.num f v }

def CliCmd.setStr (c : CliCmd) (f : StrField) (a : CharArray f.cap) : CliCmd :=
  { c with str := Function.update c.str f a }

/-- Memory with the same bit everywhere. -/
def filled (bits : Bool) : CliCmd where
  num f := if bits then BitVec.allOnes (8 * f.bytes) else 0
  str f := ⟨List.replicate f.cap (if bits then 0xFF else 0), List.length_replicate⟩

def ipv4 : ℕ := 1

/-- The size of the array in use: `ipv4_address` has `IPV4_ADDR_MAX` bytes. -/
def CliCmd.limit (c : CliCmd) : StrField → ℕ
  | .address => if (c.num .protocol).toNat = ipv4 then 16 else 40
  | f => f.cap

def CliCmd.text (c : CliCmd) (f : StrField) : List UInt8 :=
  ((c.str f).1.take (c.limit f)).takeWhile (· ≠ 0)

def CliCmd.Terminated (c : CliCmd) (f : StrField) : Prop := 0 ∈ (c.str f).1.take (c.limit f)

/-- The shifts of an `int` by 32 bits or more: undefined in C, some value on the machine. -/
structure Shifts where
  mask : ℕ → BitVec 32
  byte : UInt8 → ℕ → BitVec 32
  deriving Inhabited

def Shifts.shlMask (M : Shifts) (shifter : ℕ) : BitVec 32 :=
  if shifter < 32 then 0xFF#32 <<< shifter else M.mask shifter

def Shifts.shlByte (M : Shifts) (b : UInt8) (shifter : ℕ) : BitVec 32 :=
  if shifter < 32 then b.toBitVec.setWidth 32 <<< shifter else M.byte b shifter

def serUint (M : Shifts) {w : ℕ} (val : BitVec w) (numBytes : ℕ) : List UInt8 :=
  (List.range numBytes).map fun i =>
    ⟨((val.setWidth 64 &&& (M.shlMask (8 * i)).signExtend 64) >>> (8 * i)).setWidth 8⟩

def serNfield (M : Shifts) (c : CliCmd) (f : NumField) : List UInt8 :=
  serUint M (BitVec.ofNat 16 f.bytes) 2 ++ serUint M (c.num f) f.bytes

def serSfield (M : Shifts) (c : CliCmd) (f : StrField) : List UInt8 :=
  serUint M (BitVec.ofNat 16 (c.text f).length) 2 ++ c.text f

/-- A read behind the end of the buffer, and a write behind the end of a field. -/
inductive Fault
  | read
  | write
  deriving DecidableEq, Repr

def readBytes (buffer : List UInt8) (n : ℕ) : Except Fault (List UInt8 × List UInt8) := do
  require (n ≤ buffer.length) .read
  .ok (buffer.take n, buffer.drop n)

/-- `sfscli_deser_uint` from byte `i` on: what was in `val` before stays in it. -/
def deserUint (M : Shifts) {w : ℕ} : ℕ → List UInt8 → BitVec w → BitVec w
  | _, [], val => val
  | i, b :: bytes, val => deserUint M (i + 1) bytes (val ||| (M.shlByte b (8 * i)).signExtend w)

def deserSize (M : Shifts) (buffer : List UInt8) : Except Fault (ℕ × List UInt8) := do
  let (bytes, buffer) ← readBytes buffer 2
  .ok ((deserUint M 0 bytes (0 : BitVec 16)).toNat, buffer)

def deserNfield (M : Shifts) (f : NumField) (s : List UInt8 × CliCmd) :
    Except Fault (List UInt8 × CliCmd) := do
  let (size, buffer) ← deserSize M s.1
  let (bytes, buffer) ← readBytes buffer size
  .ok (buffer, s.2.setNum f (deserUint M 0 bytes (s.2.num f)))

def deserSfield (M : Shifts) (f : StrField) (s : List UInt8 × CliCmd) :
    Except Fault (List UInt8 × CliCmd) := do
  let (size, buffer) ← deserSize M s.1
  let (bytes, buffer) ← readBytes buffer size
  require (size ≤ s.2.limit f) .write
  .ok (buffer, s.2.setStr f ((s.2.str f).memcpy bytes))

/-- A line of a serializer and its deserializer; `zeroed` fields are set to zero first. -/
inductive Item
  | num (f : NumField)
  | zeroed (f : NumField)
  | str (f : StrField)
  deriving DecidableEq, Repr

def serItem (M : Shifts) (c : CliCmd) : Item → List UInt8
  | .num f | .zeroed f => serNfield M c f
  | .str f => serSfield M c f

def deserItem (M : Shifts) (s : List UInt8 × CliCmd) : Item → Except Fault (List UInt8 × CliCmd)
  | .num f => deserNfield M f s
  | .zeroed f => deserNfield M f (s.1, s.2.setNum f 0)
  | .str f => deserSfield M f s

def sfscliMagic : BitVec 32 := 0xdeadbeef

def serialize (M : Shifts) (items : List Item) (c : CliCmd) : List UInt8 :=
  serUint M sfscliMagic 4 ++ items.flatMap (serItem M c)

def deserItems (M : Shifts) : List Item → List UInt8 × CliCmd → Except Fault (List UInt8 × CliCmd)
  | [], s => .ok s
  | item :: items, s => do
    let s ← deserItem M s item
    deserItems M items s

/-- A deserializer, on the first `buf_len` bytes; `fresh` is the memory that `malloc` returned. -/
def deserialize (M : Shifts) (items : List Item) (buffer : List UInt8) (fresh : Option CliCmd) :
    Except Fault (ℤ × Option CliCmd) := do
  let (bytes, buffer) ← readBytes buffer 4
  if deserUint M 0 bytes (0 : BitVec 32) ≠ sfscliMagic then .ok (-22, none)
  else
    match fresh with
    | none => .ok (-12, none)
    | some cmd => do
      let s ← deserItems M items (buffer, cmd)
      .ok (0, some s.2)

def policyItems : List Item :=
  [.num .cmd, .zeroed .piUid, .num .piGid, .str (.piPolicyTag 0), .str .piFname, .str .piFtype,
    .num .piNumPolicy, .num .ver, .num .aQuota, .num .aQoslevel, .num .aIshidden,
    .num .aNumreplicas, .num .aEnableDr]

def storageItems : List Item :=
  [.num .cmd, .num .subCmd, .num .protocol, .str .address, .str .rpath, .num .accessProtocol,
    .num .storageType, .num .size]

def sfsdItems : List Item :=
  [.num .cmd, .num .subCmd, .num .protocol, .str .address, .num .port]

def licenseItems : List Item := [.num .cmd, .str .licensePath]

def Kind.items : Kind → List Item
  | .policy => policyItems
  | .storage => storageItems
  | .sfsd => sfsdItems
  | .license => licenseItems

/-- The return value of a serializer and what it stores to `*buffer`. -/
structure Serialized where
  ret : ℕ
  buffer : Option (List UInt8)
  deriving DecidableEq, Repr

def sfscliSerializePolicy (M : Shifts) (c : CliCmd) : Serialized :=
  ⟨(serialize M policyItems c).length, some (serialize M policyItems c)⟩

def sfscliSerializeStorage (M : Shifts) (c : CliCmd) : Serialized :=
  ⟨(serialize M storageItems c).length, some (serialize M storageItems c)⟩

def sfscliSerializeSfsd (M : Shifts) (c : CliCmd) : Serialized :=
  ⟨(serialize M sfsdItems c).length, some (serialize M sfsdItems c)⟩

/-- This one does not store to `*buffer`. -/
def sfscliSerializeLicense (M : Shifts) (c : CliCmd) : Serialized :=
  ⟨(serialize M licenseItems c).length, none⟩

def sfscliDeserializePolicy (M : Shifts) := deserialize M policyItems

def sfscliDeserializeStorage (M : Shifts) := deserialize M storageItems

def sfscliDeserializeSfsd (M : Shifts) := deserialize M sfsdItems

def sfscliDeserializeLicense (M : Shifts) := deserialize M licenseItems

def Kind.serializer : Kind → Shifts → CliCmd → Serialized
  | .policy => sfscliSerializePolicy
  | .storage => sfscliSerializeStorage
  | .sfsd => sfscliSerializeSfsd
  | .license => sfscliSerializeLicense

def Kind.deserializer : Kind → Shifts → List UInt8 → Option CliCmd →
    Except Fault (ℤ × Option CliCmd)
  | .policy => sfscliDeserializePolicy
  | .storage => sfscliDeserializeStorage
  | .sfsd => sfscliDeserializeSfsd
  | .license => sfscliDeserializeLicense

theorem Kind.deserializer_eq (k : Kind) (M : Shifts) :
    k.deserializer M = deserialize M k.items := by
  cases k <;> rfl

theorem Kind.serializer_eq {k : Kind} (hk : k ≠ .license) (M : Shifts) (c : CliCmd) :
    k.serializer M c = ⟨(serialize M k.items c).length, some (serialize M k.items c)⟩ := by
  cases k with
  | license => exact absurd rfl hk
  | policy | storage | sfsd => rfl

end SeamlessStack.Cli

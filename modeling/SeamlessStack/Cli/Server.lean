import SeamlessStack.Cli.Parse
import SeamlessStack.Lib.LeftLeaningRemove
import SeamlessStack.Lib.Text
import SeamlessStack.Sfs.StorageTree

/-! The thread that answers the commands of the CLI. The block at `resp_buffer` is kept from one
connection to the next, and some commands are answered from it as it is. -/
namespace SeamlessStack.Cli

open Lib
open Sfs.StorageTree (StorageKey Address Path storageTreeCmp stnodeMagic)

def maxResponseLen : ℕ := 1000

def ascii (s : String) : List UInt8 := s.toList.map fun c => UInt8.ofNat c.toNat

def printed (chars : List Char) : List UInt8 := chars.map fun c => UInt8.ofNat c.toNat

/-- A storage node with the numbers as they came with the command. -/
structure Device extends StorageKey where
  accessProtocol : BitVec 32
  type : BitVec 32
  size : BitVec 64
  deriving DecidableEq

/-- The path is behind the address in memory: an address without terminator runs into it. -/
def Device.line (index : ℕ) (node : Device) : List UInt8 :=
  let devType := if node.type = 1 then "HDD" else if node.type = 2 then "SSD" else "ERR"
  let proto := if node.accessProtocol = 1 then "NFS" else if node.accessProtocol = 2 then "CIFS"
    else if node.accessProtocol = 3 then "ISCSI" else if node.accessProtocol = 4 then "NATIVE"
    else "ERR"
  ascii "Index: " ++ printed (signedDecimal index) ++ ascii "\t IP: " ++
    (node.address.val.drop 4 ++ node.rpath.val).takeWhile (· ≠ 0) ++ ascii "   Remotepath: " ++
    node.rpath.val ++ ascii "\tProto: " ++ ascii proto ++ ascii "   Type: " ++ ascii devType ++
    ascii "  Size: " ++ printed (signedDecimal node.size.toInt) ++ ascii "\n"

/-- `buf`, which the lines are put to; its length is `buf_len`. -/
inductive Lines
  | null
  | live (bytes : List UInt8)
  | freed
  deriving DecidableEq, Repr

/-- The block at `resp_buffer`, `buf`, the `index` of `display_storage_devices` and the tree. -/
structure Server where
  respBuffer : Option (List UInt8)
  buf : Lines
  index : ℕ
  tree : RbTree Device

def Server.init : Server := ⟨none, .null, 0, .nil⟩

/-- A fault of a deserializer, a null pointer, a bad access to a block, a failed assertion. -/
inductive ServerFault
  | command (fault : Fault)
  | null
  | outside
  | freed
  | assertion
  deriving DecidableEq, Repr

/-- How the job of a storage command ends: without memory for it or for its payload, which is not
checked; failed; or done, with or without memory for a node. -/
inductive StorageJob
  | refused
  | noPayload
  | failed
  | done (node : Bool)
  deriving DecidableEq, Repr

/-- What is read from a connection, and what its handling meets: what `cmd` holds at first, and what
there is memory for. -/
structure Received where
  bytes : List UInt8
  garbage : BitVec 32
  fresh : Option CliCmd
  policyRet : ℤ
  policies : Option (List UInt8)
  job : StorageJob
  allocated : Bool
  room : ℕ → Bool

inductive Command
  | badMagic
  | unknown
  | refused
  | command (kind : Kind) (cmd : CliCmd)

def Kind.ofCmd (cmd : BitVec 32) : Option Kind :=
  if cmd = 1 then some .policy
  else if cmd = 2 then some .storage
  else if cmd = 3 then some .license
  else if cmd = 4 then some .sfsd
  else none

def Received.cmdBuffer (r : Received) : List UInt8 :=
  r.bytes ++ List.replicate (sfscliMaxBufferSize - r.bytes.length) 0

/-- The command that `get_command_response` finds. -/
def Received.command (M : Shifts) (r : Received) : Except Fault Command := do
  let (magic, p) ← readBytes r.cmdBuffer 4
  if deserUint M 0 magic (0 : BitVec 32) ≠ sfscliMagic then .ok .badMagic
  else do
    let (size, p) ← deserSize M p
    let (bytes, _) ← readBytes p size
    match Kind.ofCmd (deserUint M 0 bytes r.garbage) with
    | none => .ok .unknown
    | some kind => do
      match ← kind.deserializer M r.cmdBuffer r.fresh with
      | (0, some cmd) => .ok (.command kind cmd)
      | _ => .ok .refused

def storageAddCmd : BitVec 32 := 1
def storageDelCmd : BitVec 32 := 2
def storageUpdateCmd : BitVec 32 := 3
def storageShowCmd : BitVec 32 := 4

def CliCmd.subCmd (cmd : CliCmd) : BitVec 32 := cmd.num .subCmd

def addressOf (cmd : CliCmd) : Address :=
  ⟨(List.range 4).map (fun i => ⟨((cmd.num .protocol) >>> (8 * i)).setWidth 8⟩) ++
    (cmd.str .address).1, by
    have : (cmd.str .address).1.length = 40 := (cmd.str .address).2
    simp [this]⟩

theorem takeWhile_length_lt {l : List UInt8} (h : 0 ∈ l) :
    (l.takeWhile (· ≠ 0)).length < l.length := by
  refine lt_of_le_of_ne (List.takeWhile_prefix _).length_le fun heq => ?_
  have hall := (List.takeWhile_prefix _).eq_of_length heq
  have hzero := List.mem_takeWhile_imp (hall.symm ▸ h)
  simp at hzero

def rpathOf (cmd : CliCmd) : Option Path :=
  if h : 0 ∈ (cmd.str .rpath).1 then
    some ⟨(cmd.str .rpath).1.takeWhile (· ≠ 0),
      lt_of_lt_of_eq (takeWhile_length_lt h) (cmd.str .rpath).2, Text.zero_notMem_takeWhile _⟩
  else none

namespace Server

def respond (s : Server) (text : String) (allocated : Bool) : Except ServerFault (ℕ × Server) :=
  if allocated then
    .ok ((ascii text).length, { s with respBuffer := some (ascii text) })
  else .error .null

def getPolicyCommandResponse (s : Server) (cmd : CliCmd) (r : Received) :
    Except ServerFault (ℕ × Server) :=
  if cmd.subCmd = policyAddCmd then
    s.respond (if r.policyRet < 0 then "CLI Error" else "Policy added successfully") r.allocated
  else if cmd.subCmd = policyDelCmd then
    s.respond (if r.policyRet < 0 then "Policy doesn't exist" else "Policy delete successfully")
      r.allocated
  else if cmd.subCmd = policyShowCmd then
    match r.policies with
    | none => s.respond "CLI Error" r.allocated
    -- the block is enlarged with each policy, so that it stays if there is none
    | some [] => .ok (0, s)
    | some text => .ok (text.length, { s with respBuffer := some text })
  else .ok (0, s)

/-- `realloc` is given a pointer that may have been freed. -/
def displayStorageDevices (room : ℕ → Bool) (s : Server) (node : Device) :
    Except ServerFault Server := do
  let line := node.line s.index
  require (line.length < maxResponseLen) .outside
  let s' := { s with index := s.index + 1 }
  match s.buf with
  | .freed => .error .freed
  | .null => .ok (if room s.index then { s' with buf := .live line } else s')
  | .live bytes => .ok (if room s.index then { s' with buf := .live (bytes ++ line) } else s')

/-- `buf_len` is the length of the command. The block at `resp_buf` is not made for the lines. -/
def storageShow (s : Server) (r : Received) : Except ServerFault (ℕ × Server) := do
  let s ← s.tree.toList.foldlM (displayStorageDevices r.room) s
  match s.respBuffer, s.buf with
  | some block, .live bytes => do
    require (r.bytes.length ≤ bytes.length ∧ r.bytes.length ≤ block.length) .outside
    let block := bytes.take r.bytes.length ++ block.drop r.bytes.length
    .ok (r.bytes.length, { s with respBuffer := some block, buf := .freed })
  | _, .freed => .error .freed
  | _, _ => .error .null

def sfsStorageNodeInsert (tree : RbTree Device) (node : Device) : RbTree Device :=
  LeftLeaning.insert (fun other => storageTreeCmp node.toStorageKey other.toStorageKey) node tree

def storageTreeRemove (tree : RbTree Device) (node : Device) :
    Except ServerFault (RbTree Device) :=
  match LeftLeaning.remove
    (fun other => storageTreeCmp node.toStorageKey other.toStorageKey) node tree with
  | none => .error .assertion
  | some tree => .ok tree

def storageTreeSearch (tree : RbTree Device) (key : StorageKey) : Option Device :=
  LeftLeaning.search (fun other => storageTreeCmp key other.toStorageKey) tree

def sfsStorageNodeRemove (tree : RbTree Device) (key : StorageKey) :
    Except ServerFault (RbTree Device) :=
  match storageTreeSearch tree key with
  | none => .ok tree
  | some node => storageTreeRemove tree node

def sfsStorageNodeUpdate (tree : RbTree Device) (key : StorageKey) (size : BitVec 64) :
    Except ServerFault (RbTree Device) :=
  match storageTreeSearch tree key with
  | none => .ok tree
  | some node => do
    let tree ← storageTreeRemove tree node
    .ok (sfsStorageNodeInsert tree { node with size })

/-- The text of the response to a storage command whose job is done, and the tree. -/
def storageDone (tree : RbTree Device) (cmd : CliCmd) (key : StorageKey) (allocated : Bool) :
    Except ServerFault (String × RbTree Device) :=
  if cmd.subCmd = storageAddCmd then
    let node : Device := ⟨key, cmd.num .accessProtocol, cmd.num .storageType, cmd.num .size⟩
    .ok ("Add storage successful", if allocated then sfsStorageNodeInsert tree node else tree)
  else if cmd.subCmd = storageDelCmd then do
    let tree ← sfsStorageNodeRemove tree key
    .ok ("Del storage successful", tree)
  else do
    let tree ← sfsStorageNodeUpdate tree key (cmd.num .size)
    .ok ("Update storage successful", tree)

def getStorageCommandResponse (s : Server) (cmd : CliCmd) (r : Received) :
    Except ServerFault (ℕ × Server) :=
  if cmd.subCmd = storageShowCmd then s.storageShow r
  else if cmd.subCmd = storageAddCmd ∨ cmd.subCmd = storageDelCmd ∨
      cmd.subCmd = storageUpdateCmd then
    match r.job with
    | .refused => s.respond "CLI Error" r.allocated
    | .noPayload => .error .null
    | .failed =>
      match rpathOf cmd with
      | none => .error .outside
      | some _ => s.respond "CLI Error" r.allocated
    | .done node =>
      match rpathOf cmd with
      | none => .error .outside
      | some rpath => do
        let (text, tree) ← storageDone s.tree cmd ⟨stnodeMagic, addressOf cmd, rpath⟩ node
        { s with tree }.respond text r.allocated
  else .ok (0, s)

/-- The result as a `size_t`, which `-EINVAL` is not negative in. -/
def getCommandResponse (M : Shifts) (s : Server) (r : Received) :
    Except ServerFault (ℕ × Server) :=
  match r.command M with
  | .error fault => .error (.command fault)
  | .ok .badMagic => .ok (2 ^ 64 - 22, s)
  | .ok .unknown => .ok (0, s)
  | .ok .refused => .ok (0, s)
  | .ok (.command .policy cmd) => s.getPolicyCommandResponse cmd r
  | .ok (.command .storage cmd) => s.getStorageCommandResponse cmd r
  | .ok (.command .license _) => .ok (0, s)
  | .ok (.command .sfsd _) => .ok (r.bytes.length, s)

/-- What is written to the connection, and what stays; `write` fails for a negative count. -/
def handle (M : Shifts) (s : Server) (r : Received) : Except ServerFault (List UInt8 × Server) := do
  let (respSize, s) ← s.getCommandResponse M r
  match s.respBuffer with
  | none => .ok ([], s)
  | some block =>
    if 2 ^ 63 ≤ respSize then .ok ([], s)
    else do
      require (respSize ≤ block.length) .outside
      .ok (block.take respSize, s)

/-- `handle_cli_requests`, for the connections on which something is read. -/
def handleCliRequests (M : Shifts) (s : Server) : List Received →
    Except ServerFault (List (List UInt8) × Server)
  | [] => .ok ([], s)
  | r :: rs => do
    let (w, s) ← s.handle M r
    let (written, s) ← s.handleCliRequests M rs
    .ok (w :: written, s)

end Server

end SeamlessStack.Cli

import SeamlessStack.Log
import SeamlessStack.Serdes.Message

/-! `sstack_recv_payload`: what it makes of the result of the transport. The copies have no bound
but what the message says, so each is a copy of `Lib.Text`, and every pointer into the message is
followed by `deref`. Three parts of the message are also written to the log: `serdes_ctx` takes all
messages, and `ctx`, the context of the caller, those up to its level. -/
namespace SeamlessStack.Serdes
open Lib Log

/-- What `bds_cache_alloc` gives for the receive buffer, the payload and its buffer. -/
structure Alloc where
  temp : Bool
  payload : Bool
  data : Bool
  deriving DecidableEq, Repr

/-- The result of the transport's `rx`: a number, `errno`, and what was put in the buffer. -/
structure Rx where
  ret : ℤ
  errno : ℕ
  buffer : List UInt8
  length_eq : 0 ≤ ret → (buffer.length : ℤ) = ret
  length_le : buffer.length ≤ sizeofPayload

def Command.buffered : Command → Bool
  | .write | .create | .remove | .rmdir | .readRsp | .lookupRsp => true
  | _ => false

/-- The payload is set to zero before it is known to be there. The result: there is one. -/
def createPayload (al : Alloc) (c : Command) : Except Fault Bool :=
  if al.payload then .ok (!c.buffered || al.data) else .error .null

def Address.empty : Address := ⟨0, .empty _⟩

def FileHandle.empty : FileHandle := ⟨0, .empty _, 0, .empty⟩

theorem ipv4AddrMax_le : ipv4AddrMax ≤ ipv6AddrMax := by
  decide

namespace Proto

def PayloadHdr.recv (h : PayloadHdr) : Serdes.PayloadHdr where
  sequence := h.sequence
  payloadLen := h.payloadLen
  jobId := h.jobId.toInt64.toUInt64
  priority := h.priority
  arg := h.arg

def Payload.commandField {α : Type} (msg : Payload) (field : CommandStruct → Option α) :
    Except Fault α := do
  let cmd ← deref msg.commandStruct
  deref (field cmd)

def Payload.responseField {α : Type} (msg : Payload) (field : ResponseStruct → Option α) :
    Except Fault (ResponseStruct × α) := do
  let response ← deref msg.responseStruct
  let a ← deref (field response)
  pure (response, a)

/-- The address is taken by the kind of the receiver's own transport, the protocol not at all. -/
def Storage.recv (ctx : ℕ) (isIpv4 : Bool) (behind : ℕ → UInt8) (s : Storage) :
    Except Fault Serdes.Storage := do
  let path ← strncpy pathMax s.path.length behind s.path
  require (Fits ctx sfsDebug
    ("sstack_recv_payload: storage.path = \n".length + path.bytes.length)) .outside
  let mountPoint ← strncpy maxMountPointLen s.mountPoint.length behind s.mountPoint
  let text ← (if isIpv4 then do
      let t ← strcpy ipv4AddrMax behind (s.address.ipv4Address.getD [])
      pure (t.widen ipv4AddrMax_le)
    else strcpy ipv6AddrMax behind (s.address.ipv6Address.getD []))
  pure ⟨path, mountPoint, s.weight, s.nblocks, s.protocol, 0, ⟨0, text⟩⟩

/-- From `mode` in the message to `type` in the payload, as long as a `struct attribute`. -/
def FileAttribute.recv (a : FileAttribute) : Serdes.FileAttribute :=
  ⟨a.mode, a.numLink, a.uid, 0, 0, 0, 0, 0, 0, (0, 0), (0, 0), (0, 0)⟩

/-- A copy of `sizeof(struct attribute)` bytes between different layouts: what follows `ver` comes
to stand at `a_quota`, and the next number is spread over four fields. -/
def Attribute.recv (a : Attribute) : Serdes.Attribute where
  ver := a.ver
  aQuota := a.aQoslevel
  aQoslevel := a.aIshidden.toUInt8
  aIshidden := (a.aIshidden >>> 8).toUInt8
  aNumreplicas := (a.aIshidden >>> 16).toUInt8
  aEnableDr := (a.aIshidden >>> 24).toUInt8

/-- The plugins are written through pointers behind the policy entry, where the payload is zero. -/
def PolicyEntry.recv (e : PolicyEntry) : Except Fault Serdes.PolicyEntry :=
  if e.peNumPlugins = 0 then
    .ok ⟨e.peAttr.recv, e.peNumPlugins.toUInt64, e.peRefcount, e.peLock.toInt32,
      e.pstIndex.toUInt8⟩
  else .error .null

/-- The address is a copy of `IPV4_ADDR_MAX` bytes, however many there are. -/
def FileName.recvExtentHandle (behind : ℕ → UInt8) (f : FileName) :
    Except Fault FileHandle := do
  require (FitsBytes sfsDebug sfsDebug
    ("sstack_recv_payload() - 1948, name len:  name: \n".length + decimals f.name.length) behind
    f.name) .outside
  let name ← strncpy pathMax f.name.length behind f.name
  let text ← (match f.address.ipv4Address with
    | some a => do
      let t ← strncpy ipv4AddrMax ipv4AddrMax behind a
      pure (t.widen ipv4AddrMax_le)
    | none => pure (.empty ipv6AddrMax))
  pure ⟨f.name.length.toUInt64, name, f.proto, ⟨f.address.protocol, text⟩⟩

def FileName.recvNewPath (behind : ℕ → UInt8) (f : FileName) : Except Fault FileHandle := do
  let name ← strcpy pathMax behind f.name
  pure ⟨f.nameLen.toUInt64, name, 0, .empty⟩

/-- The length of the second name is not taken. -/
def LookupCmd.recv (behind : ℕ → UInt8) (l : LookupCmd) : Except Fault CommandFields := do
  let dir ← strcpy pathMax behind l.dir.name
  let what ← strcpy pathMax behind l.what.name
  pure (.lookup ⟨l.dir.nameLen.toUInt64, dir, 0, .empty⟩ ⟨0, what, 0, .empty⟩)

def ReadCmd.recv (r : ReadCmd) : Except Fault CommandFields := do
  let pe ← r.pe.recv
  pure (.read ⟨r.inodeNo, r.offset, r.count, r.readEcode, pe⟩)

/-- The number of bytes to copy is the field `data_len`, not the length of the data. -/
def WriteCmd.recv (behind : ℕ → UInt8) (w : WriteCmd) : Except Fault CommandFields := do
  require (FitsBytes sfsDebug sfsDebug "data: \n".length behind w.data.dataBuf) .outside
  let buf ← memcpy data64k w.data.dataLen.toNat behind w.data.dataBuf
  let pe ← w.pe.recv
  pure (.write ⟨w.inodeNo, w.offset, w.count, ⟨w.data.dataLen, .bytes buf⟩, pe⟩)

/-- The data are copied over the pointer to the buffer. -/
def CreateCmd.recv (behind : ℕ → UInt8) (c : CreateCmd) : Except Fault CommandFields := do
  let t ← strcpy sizeofPointer behind c.data.dataBuf
  let pe ← c.pe.recv
  pure (.create ⟨c.inodeNo, c.mode, ⟨c.data.dataLen, .overwritten t⟩, pe⟩)

/-- The path is copied over the pointer to it. -/
def RemoveCmd.recv (behind : ℕ → UInt8) (r : RemoveCmd) : Except Fault CommandFields := do
  let t ← strcpy sizeofPointer behind r.path
  pure (.remove ⟨r.pathLen.toUInt64, .overwritten t⟩)

def LookupResp.recv (behind : ℕ → UInt8) (l : LookupResp) : Except Fault ResponseFields := do
  let path ← memcpy data4k l.lookupPath.length behind l.lookupPath
  pure (.lookup ⟨l.lookupPathLen.toUInt64, path⟩)

def FileName.recvRealFile (behind : ℕ → UInt8) (f : FileName) :
    Except Fault ResponseFields := do
  let bytes ← memcpy pathMax f.name.length behind f.name
  pure (.readlink ⟨f.nameLen.toUInt64, .ofBytes (bytes.take pathMax) (List.length_take_le _ _),
    0, .empty⟩)

def ReadResp.recv (behind : ℕ → UInt8) (r : ReadResp) : Except Fault ResponseFields := do
  let buf ← memcpy data64k r.data.dataBuf.length behind r.data.dataBuf
  pure (.read ⟨r.count, r.eof, ⟨r.data.dataLen, .bytes buf⟩⟩)

def ResponseStruct.recv (r : ResponseStruct) (fields : ResponseFields) : Body :=
  .response r.commandOk.toInt32 r.handle fields

/-- The `switch` of `sstack_recv_payload`. Most commands leave the extent handle as it is. -/
def Payload.recvBody (ctx : ℕ) (isIpv4 : Bool) (behind : ℕ → UInt8) (msg : Payload) :
    Except Fault (Option Body) :=
  match msg.command with
  | .storage c => do
    let s ← deref msg.storage
    let storage ← s.recv ctx isIpv4 behind
    pure (some (.storage c storage))
  | .bare _ | .rmdir | .esureCode => pure none
  | .setattr => do
    let a ← msg.commandField (·.setattrCmd)
    pure (some (.command .empty (.setattr a.recv)))
  | .lookup => do
    let l ← msg.commandField (·.lookupCmd)
    let fields ← l.recv behind
    pure (some (.command .empty fields))
  | .access => do
    let mode ← msg.commandField (·.accessCmd)
    pure (some (.command .empty (.access mode)))
  | .read => do
    let r ← msg.commandField (·.readCmd)
    let fields ← r.recv
    let f ← msg.commandField (·.extentHandle)
    let handle ← f.recvExtentHandle behind
    pure (some (.command handle fields))
  | .write => do
    let w ← msg.commandField (·.writeCmd)
    let fields ← w.recv behind
    pure (some (.command .empty fields))
  | .create => do
    let c ← msg.commandField (·.createCmd)
    let fields ← c.recv behind
    pure (some (.command .empty fields))
  | .mkdir => do
    let mode ← msg.commandField (·.mkdirCmd)
    pure (some (.command .empty (.mkdir mode)))
  | .symlink => do
    let f ← msg.commandField (·.symlinkCmd)
    let newPath ← f.recvNewPath behind
    pure (some (.command .empty (.symlink newPath)))
  | .remove => do
    let r ← msg.commandField (·.removeCmd)
    let fields ← r.recv behind
    pure (some (.command .empty fields))
  | .rename => do
    let f ← msg.commandField (·.renameCmd)
    let newPath ← f.recvNewPath behind
    pure (some (.command .empty (.rename newPath)))
  | .commit => do
    let cmd ← msg.commandField (·.commitCmd)
    pure (some (.command .empty (.commit cmd)))
  | .bareRsp r => do
    let response ← deref msg.responseStruct
    pure (some (response.recv (.bare r)))
  | .getattrRsp => do
    let (response, stat) ← msg.responseField (·.getattrResp)
    pure (some (response.recv (.getattr (ahead behind stat sizeofStat))))
  | .lookupRsp => do
    let (response, l) ← msg.responseField (·.lookupResp)
    let fields ← l.recv behind
    pure (some (response.recv fields))
  | .accessRsp => do
    let (response, access) ← msg.responseField (·.accessResp)
    pure (some (response.recv (.access access)))
  | .readlinkRsp => do
    let (response, f) ← msg.responseField (·.readlinkResp)
    let fields ← f.recvRealFile behind
    pure (some (response.recv fields))
  | .readRsp => do
    let (response, r) ← msg.responseField (·.readResp)
    let fields ← r.recv behind
    pure (some (response.recv fields))
  | .writeRsp => do
    -- the status is the one of the write, not the one of the response
    let (response, w) ← msg.responseField (·.writeResp)
    pure (some (.response w.fileCreateOk.toInt32 response.handle (.write w)))
  | .createRsp => do
    let (response, w) ← msg.responseField (·.createResp)
    pure (some (response.recv (.create w)))

end Proto

/-- `sstack_recv_payload` behind the call of `unpack`, whose result it does not test. -/
def decode (al : Alloc) (ctx : ℕ) (isIpv4 : Bool) (behind : ℕ → UInt8)
    (msg : Option Proto.Payload) : Except Fault (Option Payload) := do
  let msg ← deref msg
  let created ← createPayload al msg.command
  if created then do
    let body ← msg.recvBody ctx isIpv4 behind
    pure (body.map fun b => ⟨msg.hdr.recv, b⟩)
  else pure none

def einval : ℤ := 22

def recvLen (handle : UInt64) (rx : Rx) : ℤ :=
  if handle = 0 then -einval
  else if rx.ret = -1 then -rx.errno
  else rx.ret

/-- Of the negative results it knows `-1` only, and takes every other one for a length. -/
def sstackRecvPayload (unpack : List UInt8 → Option Proto.Payload) (al : Alloc) (ctx : ℕ)
    (isIpv4 : Bool) (behind : ℕ → UInt8) (handle : UInt64) (rx : Rx) :
    Except Fault (Option Payload) :=
  if handle = -1 then .ok none
  else if al.temp = false then .ok none
  else if recvLen handle rx = -1 then .ok none
  else if recvLen handle rx < 0 then .error .outside
  else decode al ctx isIpv4 behind (unpack (rx.buffer.take (recvLen handle rx).toNat))

end SeamlessStack.Serdes

import SeamlessStack.Serdes.Receive

/-! `sstack_send_payload`: the message it makes of a payload and the calls of the transport. A
copy to the place of a pointer, and not to where it leads, leaves a pointer made of characters,
which `pack` follows. Storage commands, reads and writes are written to the log with their texts
and data. -/
namespace SeamlessStack.Serdes
open Lib Log

/-- What `malloc` gives for the texts of a storage command. -/
structure TextMalloc where
  path : Bool
  mountPoint : Bool
  address : Bool
  deriving DecidableEq, Repr

/-- The bytes behind a text or the data, those of the pointer to the buffer, the level of the log,
the memory for texts, and the command of a message that was not given one: zero or the first of the
enumeration, by the version of protobuf-c. -/
structure SendEnv where
  stale : ℕ → UInt8
  pointer : List UInt8
  ctx : ℕ
  texts : TextMalloc
  defaultCommand : Command
  default_cases : defaultCommand = .bare (.unknown 0) ∨ defaultCommand = .storage .add

/-- `pack` writes a required part that was not set as an empty one, and `unpack` refuses that. -/
inductive Packet
  | message (m : Proto.Payload)
  | incomplete
  deriving DecidableEq, Repr

def Packet.unpack : Packet → Option Proto.Payload
  | message m => some m
  | incomplete => none

def strlen {n : ℕ} (t : Text n) : Except Fault ℕ :=
  if t.bytes.length < n then .ok t.bytes.length else .error .outside

def Text.within {n : ℕ} (stale : ℕ → UInt8) (t : Lib.Text n) (k : ℕ) : List UInt8 :=
  ahead stale (t.bytes ++ [0]) k

def copyOverNull (n : ℕ) : Except Fault (List UInt8) :=
  if n = 0 then .ok [] else .error .wild

/-- The pointer to the buffer is copied as if it were a text, and `pack` reads the bytes of the
buffer there if nothing was lost. -/
def copyPointer (env : SendEnv) (buf : Buffer) (n : ℕ) : Except Fault (List UInt8) :=
  if n = 0 then .ok []
  else if sizeofPointer < n then .error .outside
  else
    let text := (env.pointer.take n).takeWhile (· ≠ 0)
    if text ++ List.replicate (sizeofPointer - text.length) 0 = env.pointer then
      match buf with
      | .bytes l => if n ≤ l.length then .ok (l.take n) else .error .outside
      | .overwritten _ => .error .wild
    else .error .wild

def commandInit : Proto.CommandStruct :=
  ⟨none, none, none, none, none, none, none, none, none, none, none, none⟩

def responseInit : Proto.ResponseStruct :=
  ⟨0, 0, none, none, none, none, none, none, none⟩

def copyText (allocated : Bool) (bytes : List UInt8) : Except Fault (List UInt8) := do
  require (allocated = true ∨ bytes = []) .null
  pure bytes

/-- The address is of the kind of the transport, and is sent with all bytes of its array. -/
def Address.send (isIpv4 : Bool) (env : SendEnv) (a : Address) : Except Fault Proto.Address := do
  require (env.texts.address = true) .null
  if isIpv4 then do
    require (a.text.bytes.length < ipv4AddrMax) .outside
    pure ⟨ipv4, some (Text.within env.stale a.text ipv4AddrMax), none⟩
  else do
    require (a.text.bytes.length < ipv6AddrMax) .outside
    pure ⟨ipv6, none, some (Text.within env.stale a.text ipv6AddrMax)⟩

def StorageCommand.stringify : StorageCommand → String
  | .add => "SSTACK_ADD_STORAGE"
  | .remove => "SSTACK_REMOVE_STORAGE"
  | .update => "SSTACK_UPDATE_STORAGE"

def Storage.shown (c : StorageCommand) (s : Storage) : ℕ :=
  c.stringify.length + s.path.bytes.length + s.address.text.bytes.length

def Storage.send (isIpv4 : Bool) (env : SendEnv) (c : StorageCommand) (s : Storage) :
    Except Fault Proto.Storage := do
  require (Fits env.ctx sfsInfo
    ("sstack_send_payload:  called with path =   ipaddr = \n".length + s.shown c)) .outside
  let pathLen ← strlen s.path
  let path ← copyText env.texts.path (Text.within env.stale s.path pathLen)
  let mountPointLen ← strlen s.mountPoint
  let mountPoint ← copyText env.texts.mountPoint
    (Text.within env.stale s.mountPoint mountPointLen)
  let address ← s.address.send isIpv4 env
  pure ⟨path, mountPoint, s.weight, s.nblocks, s.protocol, s.numChunksWritten, address⟩

def FileHandle.sendExtentHandle (env : SendEnv) (h : FileHandle) :
    Except Fault Proto.FileName := do
  let addressLen ← strlen h.address.text
  require (h.nameLen.toNat ≤ pathMax) .outside
  pure ⟨h.nameLen.toUInt32, Text.within env.stale h.name h.nameLen.toNat, h.proto,
    ⟨h.address.protocol, some (Text.within env.stale h.address.text addressLen), none⟩⟩

/-- There is no place for `a_quota` in the message. -/
def Attribute.send (a : Attribute) : Proto.Attribute :=
  ⟨a.ver, a.aQoslevel.toUInt32, a.aIshidden.toUInt32, a.aNumreplicas.toUInt32,
    a.aEnableDr.toUInt32⟩

def PolicyEntry.fields (e : PolicyEntry) : Proto.PolicyEntry :=
  ⟨e.peAttr.send, e.peNumPlugins.toUInt32, e.peRefcount, e.peLock.toUInt32, e.pstIndex.toUInt32⟩

/-- Room for the plugins is allocated through `*plugins`, where `plugins` is null. -/
def PolicyEntry.send (e : PolicyEntry) : Except Fault Proto.PolicyEntry :=
  if e.peNumPlugins.toUInt32 = 0 then .ok e.fields else .error .null

/-- The data of a write or a read, where the pointer is handed over. -/
def Data.send (d : Data) : Except Fault Proto.Data :=
  match d.dataBuf with
  | .bytes l => do
    require (d.dataLen.toNat ≤ l.length) .outside
    pure ⟨d.dataLen, l.take d.dataLen.toNat⟩
  | .overwritten _ => .error .wild

/-- The message to the log goes on behind the data to the next zero. -/
def Data.log (env : SendEnv) (d : Data) : Except Fault Unit :=
  match d.dataBuf with
  | .bytes l => require (FitsText sfsDebug sfsDebug
      ("sstack_send_payload() - 861 - Data to write:  \n".length + decimals d.dataLen.toNat)
      env.stale l) .outside
  | .overwritten _ => .error .wild

def commandPacket (hdr : UInt32 → Proto.PayloadHdr) (payloadLen : UInt32) (c : Command)
    (cmd : Proto.CommandStruct) : Packet :=
  .message ⟨hdr payloadLen, c, none, some cmd, none⟩

def responsePacket (hdr : UInt32 → Proto.PayloadHdr) (payloadLen : UInt32) (c : Command)
    (response : Proto.ResponseStruct) : Packet :=
  .message ⟨hdr payloadLen, c, none, none, some response⟩

section
variable (env : SendEnv) (hdr : UInt32 → Proto.PayloadHdr)

/-- The commands of the `switch` of `sstack_send_payload`; the others are not sent at all. -/
def CommandFields.send (extentHandle : FileHandle) :
    CommandFields → Except Fault (Option Packet)
  | .bare _ | .rmdir _ | .esureCode _ => pure none
  | .setattr _ =>
    -- the copy covers the head of the protobuf structure and runs over its end
    .error .outside
  | .lookup dir what => do
    -- the addresses, which a name must have, are not set
    let _ ← copyOverNull dir.nameLen.toUInt32.toNat
    let _ ← copyOverNull what.nameLen.toUInt32.toNat
    pure (some .incomplete)
  | .access mode =>
    pure (some (commandPacket hdr sizeofPayloadHdr .access { commandInit with
      accessCmd := some mode }))
  | .read cmd => do
    let name ← extentHandle.sendExtentHandle env
    let pe ← cmd.pe.send
    require (Fits sfsDebug sfsDebug ("sstack_send_payload() - name len:  name \n".length +
      decimals extentHandle.nameLen.toNat + extentHandle.name.bytes.length)) .outside
    pure (some (commandPacket hdr sizeofPayloadHdr .read { commandInit with
      extentHandle := some name
      readCmd := some ⟨cmd.inodeNo, cmd.offset, cmd.count, cmd.readEcode, pe⟩ }))
  | .write cmd => do
    cmd.data.log env
    let data ← cmd.data.send
    let pe ← cmd.pe.send
    pure (some (commandPacket hdr sizeofPayload.toUInt32 .write { commandInit with
      writeCmd := some ⟨cmd.inodeNo, cmd.offset, cmd.count, data, pe⟩ }))
  | .create cmd => do
    let buf ← copyPointer env cmd.data.dataBuf cmd.data.dataLen.toNat
    let pe ← cmd.pe.send
    pure (some (commandPacket hdr sizeofPayloadHdr .create { commandInit with
      createCmd := some ⟨cmd.inodeNo, cmd.mode, ⟨cmd.data.dataLen, buf⟩, pe⟩ }))
  | .mkdir mode =>
    pure (some (commandPacket hdr sizeofPayloadHdr .mkdir { commandInit with
      mkdirCmd := some mode }))
  | .symlink newPath => do
    let _ ← copyOverNull newPath.nameLen.toUInt32.toNat
    pure (some .incomplete)
  | .remove cmd => do
    let path ← copyPointer env cmd.path cmd.pathLen.toUInt32.toNat
    pure (some (commandPacket hdr sizeofPayloadHdr .remove { commandInit with
      removeCmd := some ⟨cmd.pathLen.toUInt32, path⟩ }))
  | .rename newPath => do
    let _ ← copyOverNull newPath.nameLen.toUInt32.toNat
    pure (some .incomplete)
  | .commit cmd =>
    pure (some (commandPacket hdr sizeofPayloadHdr .commit { commandInit with
      commitCmd := some cmd }))

/-- Five of the responses set neither the command nor the status; only plain ones set the handle. -/
def ResponseFields.send (commandOk : Int32) (handle : UInt64) :
    ResponseFields → Except Fault (Option Packet)
  | .bare r =>
    pure (some (responsePacket hdr sizeofPayload.toUInt32 (.bareRsp r) { responseInit with
      commandOk := commandOk.toUInt32, handle }))
  | .getattr _ =>
    -- a `struct stat` is larger than the numbers of a `stat` message
    .error .outside
  | .lookup resp => do
    let path ← copyOverNull (resp.lookupPath.takeWhile (· ≠ 0)).length
    pure (some (responsePacket hdr sizeofPayloadHdr env.defaultCommand { responseInit with
      lookupResp := some ⟨resp.lookupPathLen.toUInt32, path⟩ }))
  | .access mode =>
    pure (some (responsePacket hdr sizeofPayloadHdr env.defaultCommand { responseInit with
      accessResp := some mode }))
  | .readlink realFile => do
    let len ← strlen realFile.name
    let _ ← copyOverNull len
    pure (some .incomplete)
  | .read resp => do
    let data ← resp.data.send
    pure (some (responsePacket hdr sizeofPayloadHdr .readRsp { responseInit with
      commandOk := commandOk.toUInt32
      readResp := some ⟨resp.count, resp.eof, data⟩ }))
  | .write resp =>
    -- the status goes where the result of the creation belongs
    pure (some (responsePacket hdr sizeofPayloadHdr .writeRsp { responseInit with
      writeResp := some ⟨commandOk.toUInt32, resp.fileWc⟩ }))
  | .create resp =>
    pure (some (responsePacket hdr sizeofPayloadHdr env.defaultCommand { responseInit with
      createResp := some resp }))

def Body.send (isIpv4 : Bool) : Body → Except Fault (Option Packet)
  | .storage c s => do
    let storage ← s.send isIpv4 env c
    pure (some (.message ⟨hdr sizeofPayloadHdr, .storage c, some storage, none, none⟩))
  | .command extentHandle fields => fields.send env hdr extentHandle
  | .response commandOk handle fields => fields.send env hdr commandOk handle

end

def numErrno : ℕ := 134

/-- The other arguments of `sstack_send_payload`, the number of its message, what `malloc` gives for
it, and what `tx` returns. -/
structure SendCall where
  handle : UInt64
  jobId : UInt64
  job : UInt64
  priority : Int32
  sequence : UInt32
  malloc : Bool
  txRet : ℤ
  errno : Fin numErrno
  deriving DecidableEq, Repr

/-- What `sstack_send_payload` returns, and what it handed to the transport. -/
structure Sent where
  ret : ℤ
  handed : List Packet
  deriving DecidableEq, Repr

def maxOutstandingJobs : UInt64 := 8192
def enomem : ℤ := 12

def SendCall.hdr (call : SendCall) (payloadLen : UInt32) : Proto.PayloadHdr :=
  ⟨call.sequence, payloadLen, call.jobId.toUInt32.toInt32, call.priority, call.job⟩

def sendRet (txRet : ℤ) (errno : ℕ) : ℤ := if txRet = -1 then -errno else 0

def SendCall.sendRet (call : SendCall) : ℤ :=
  if call.handle = 0 then -einval else Serdes.sendRet call.txRet call.errno

/-- The message to the log about a storage command for which there was no memory. -/
def Body.reportNomem (env : SendEnv) : Body → Except Fault Unit
  | .storage c s => require (Fits env.ctx sfsErr
      ("sstack_send_payload: Failed to allocate memory for  path . Command aborted \n".length +
        (c.stringify.length + s.path.bytes.length))) .outside
  | _ => pure ()

/-- The message to the log about a storage command for which `_sendrecv_payload` gave `ret`. -/
def Body.report (env : SendEnv) (ret : ℤ) : Body → Except Fault Unit
  | .storage c s =>
    if ret = 0 then
      let text :=
        "sstack_send_payload: Successfully xmitted payload for  request for ipaddr  path  \n"
      require (Fits env.ctx sfsInfo (text.length + s.shown c)) .outside
    else
      let text :=
        "sstack_send_payload: Failed to xmit payload for  request for ipaddr  path . Error = -\n"
      require (Fits env.ctx sfsErr (text.length + s.shown c + decimals ret.natAbs)) .outside
  | _ => pure ()

def sstackSendPayload (env : SendEnv) (isIpv4 : Bool) (call : SendCall) (body : Body) :
    Except Fault Sent :=
  if call.handle = -1 ∨ maxOutstandingJobs ≤ call.jobId then .ok ⟨-einval, []⟩
  else do
    let packet ← body.send env call.hdr isIpv4
    match packet with
    | none => pure ⟨0, []⟩
    | some p =>
      if call.malloc then do
        body.report env call.sendRet
        pure ⟨-call.sendRet, if call.handle = 0 then [] else [p]⟩
      else do
        body.reportNomem env
        pure ⟨-enomem, []⟩

end SeamlessStack.Serdes

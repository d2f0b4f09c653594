import Mathlib.Data.Nat.Log
import SeamlessStack.Serdes.Send

/-! How many bytes `pack` makes of a message that `sstack_send_payload` has filled in. Each field
has a tag of one byte. A number is written in groups of seven bits; a part and a field of type
`bytes` have their length before them. -/
namespace SeamlessStack.Serdes

def varintSize (n : ℕ) : ℕ := Nat.log 128 n + 1

def int32Size (x : Int32) : ℕ := varintSize x.toInt64.toUInt64.toNat

def delimited (n : ℕ) : ℕ := varintSize n + n

def fieldSize (n : ℕ) : ℕ := n + 1

def optionalSize {α : Type} (size : α → ℕ) (field : Option α) : ℕ :=
  field.elim 0 fun a => fieldSize (size a)

@[simp] theorem optionalSize_none {α : Type} (size : α → ℕ) : optionalSize size none = 0 := rfl

@[simp] theorem optionalSize_some {α : Type} (size : α → ℕ) (a : α) :
    optionalSize size (some a) = fieldSize (size a) := rfl

theorem varintSize_mono {m n : ℕ} (h : m ≤ n) : varintSize m ≤ varintSize n :=
  Nat.succ_le_succ (Nat.log_mono_right h)

theorem varintSize_uint64 (x : UInt64) : varintSize x.toNat ≤ 10 :=
  varintSize_mono (Nat.le_of_lt_succ x.toNat_lt)

theorem varintSize_uint32 (x : UInt32) : varintSize x.toNat ≤ 5 :=
  varintSize_mono (Nat.le_of_lt_succ x.toNat_lt)

theorem int32Size_le (x : Int32) : int32Size x ≤ 10 := varintSize_uint64 _

theorem fieldSize_delimited_le {n : ℕ} (h : n ≤ 16383) : fieldSize (delimited n) ≤ n + 3 := by
  have hsize : varintSize n ≤ 2 := varintSize_mono h
  unfold fieldSize delimited
  omega

namespace Proto

def PayloadHdr.packedSize (h : PayloadHdr) : ℕ :=
  fieldSize (varintSize h.sequence.toNat) + fieldSize (varintSize h.payloadLen.toNat) +
    fieldSize (int32Size h.jobId) + fieldSize (int32Size h.priority) +
    fieldSize (varintSize h.arg.toNat)

def Address.packedSize (a : Address) : ℕ :=
  fieldSize (int32Size a.protocol.toInt32) +
    optionalSize (delimited ·.length) a.ipv4Address +
    optionalSize (delimited ·.length) a.ipv6Address

def FileName.packedSize (f : FileName) : ℕ :=
  fieldSize (varintSize f.nameLen.toNat) + fieldSize (delimited f.name.length) +
    fieldSize (int32Size f.proto.toInt32) + fieldSize (delimited f.address.packedSize)

def Storage.packedSize (s : Storage) : ℕ :=
  fieldSize (delimited s.path.length) + fieldSize (delimited s.mountPoint.length) +
    fieldSize (varintSize s.weight.toNat) + fieldSize (varintSize s.nblocks.toNat) +
    fieldSize (int32Size s.protocol.toInt32) + fieldSize (varintSize s.numChunksWritten.toNat) +
    fieldSize (delimited s.address.packedSize)

def Attribute.packedSize (a : Attribute) : ℕ :=
  fieldSize (varintSize a.ver.toNat) + fieldSize (varintSize a.aQoslevel.toNat) +
    fieldSize (varintSize a.aIshidden.toNat) + fieldSize (varintSize a.aNumreplicas.toNat) +
    fieldSize (varintSize a.aEnableDr.toNat)

def PolicyEntry.packedSize (e : PolicyEntry) : ℕ :=
  fieldSize (delimited e.peAttr.packedSize) + fieldSize (varintSize e.peNumPlugins.toNat) +
    fieldSize (varintSize e.peRefcount.toNat) + fieldSize (varintSize e.peLock.toNat) +
    fieldSize (varintSize e.pstIndex.toNat)

def Data.packedSize (d : Data) : ℕ :=
  fieldSize (varintSize d.dataLen.toNat) + fieldSize (delimited d.dataBuf.length)

def ReadCmd.packedSize (r : ReadCmd) : ℕ :=
  fieldSize (varintSize r.inodeNo.toNat) + fieldSize (varintSize r.offset.toNat) +
    fieldSize (varintSize r.count.toNat) + fieldSize (int32Size r.readEcode) +
    fieldSize (delimited r.pe.packedSize)

def WriteCmd.packedSize (w : WriteCmd) : ℕ :=
  fieldSize (varintSize w.inodeNo.toNat) + fieldSize (varintSize w.offset.toNat) +
    fieldSize (varintSize w.count.toNat) + fieldSize (delimited w.data.packedSize) +
    fieldSize (delimited w.pe.packedSize)

def CreateCmd.packedSize (c : CreateCmd) : ℕ :=
  fieldSize (varintSize c.inodeNo.toNat) + fieldSize (varintSize c.mode.toNat) +
    fieldSize (delimited c.data.packedSize) + fieldSize (delimited c.pe.packedSize)

def modeSize (mode : UInt32) : ℕ := fieldSize (varintSize mode.toNat)

def RemoveCmd.packedSize (r : RemoveCmd) : ℕ :=
  fieldSize (varintSize r.pathLen.toNat) + fieldSize (delimited r.path.length)

def commitSize (c : CommitCmd) : ℕ :=
  fieldSize (varintSize c.offset.toNat) + fieldSize (varintSize c.count.toNat)

/-- Commands with two names, a new path or attributes are never packed as a whole message. -/
def CommandStruct.packedSize (c : CommandStruct) : ℕ :=
  optionalSize (delimited ·.packedSize) c.extentHandle +
    optionalSize (delimited <| modeSize ·) c.accessCmd +
    optionalSize (delimited ·.packedSize) c.readCmd +
    optionalSize (delimited ·.packedSize) c.writeCmd +
    optionalSize (delimited ·.packedSize) c.createCmd +
    optionalSize (delimited <| modeSize ·) c.mkdirCmd +
    optionalSize (delimited ·.packedSize) c.removeCmd +
    optionalSize (delimited <| commitSize ·) c.commitCmd

def LookupResp.packedSize (l : LookupResp) : ℕ :=
  fieldSize (varintSize l.lookupPathLen.toNat) + fieldSize (delimited l.lookupPath.length)

def ReadResp.packedSize (r : ReadResp) : ℕ :=
  fieldSize (varintSize r.count.toNat) + fieldSize (int32Size r.eof) +
    fieldSize (delimited r.data.packedSize)

def writeRespSize (w : WriteResp) : ℕ :=
  fieldSize (varintSize w.fileCreateOk.toNat) + fieldSize (varintSize w.fileWc.toNat)

/-- Nor is a response with a `struct stat` or with the name of a file. -/
def ResponseStruct.packedSize (r : ResponseStruct) : ℕ :=
  fieldSize (varintSize r.commandOk.toNat) + fieldSize (varintSize r.handle.toNat) +
    optionalSize (delimited ·.packedSize) r.lookupResp +
    optionalSize (delimited <| modeSize ·) r.accessResp +
    optionalSize (delimited ·.packedSize) r.readResp +
    optionalSize (delimited <| writeRespSize ·) r.writeResp +
    optionalSize (delimited <| writeRespSize ·) r.createResp

def Payload.contentsSize (m : Payload) : ℕ :=
  optionalSize (delimited ·.packedSize) m.storage +
    optionalSize (delimited ·.packedSize) m.commandStruct +
    optionalSize (delimited ·.packedSize) m.responseStruct

def Payload.packedSize (m : Payload) : ℕ :=
  fieldSize (delimited m.hdr.packedSize) + fieldSize 1 + fieldSize 1 + m.contentsSize

section
variable {hdr : PayloadHdr} {c : Command}

theorem contentsSize_storage (storage : Storage) :
    Payload.contentsSize ⟨hdr, c, some storage, none, none⟩ =
      fieldSize (delimited storage.packedSize) := by
  simp [Payload.contentsSize]

theorem contentsSize_command (cmd : CommandStruct) :
    Payload.contentsSize ⟨hdr, c, none, some cmd, none⟩ = fieldSize (delimited cmd.packedSize) := by
  simp [Payload.contentsSize]

theorem contentsSize_response (response : ResponseStruct) :
    Payload.contentsSize ⟨hdr, c, none, none, some response⟩ =
      fieldSize (delimited response.packedSize) := by
  simp [Payload.contentsSize]

end

theorem Attribute.packedSize_le (a : Attribute) : a.packedSize ≤ 30 := by
  have hver := varintSize_uint32 a.ver
  have hqos := varintSize_uint32 a.aQoslevel
  have hhidden := varintSize_uint32 a.aIshidden
  have hreplicas := varintSize_uint32 a.aNumreplicas
  have hdr := varintSize_uint32 a.aEnableDr
  unfold Attribute.packedSize fieldSize
  omega

theorem PolicyEntry.packedSize_le (e : PolicyEntry) : e.packedSize ≤ 57 := by
  have hattr := e.peAttr.packedSize_le
  have hattr := fieldSize_delimited_le (hattr.trans (by decide))
  have hplugins := varintSize_uint32 e.peNumPlugins
  have hrefcount := varintSize_uint32 e.peRefcount
  have hlock := varintSize_uint32 e.peLock
  have hindex := varintSize_uint32 e.pstIndex
  unfold PolicyEntry.packedSize
  unfold fieldSize at *
  omega

theorem ReadCmd.packedSize_le (r : ReadCmd) : r.packedSize ≤ 104 := by
  have hpe := r.pe.packedSize_le
  have hpe := fieldSize_delimited_le (hpe.trans (by decide))
  have hinode := varintSize_uint64 r.inodeNo
  have hoffset := varintSize_uint64 r.offset
  have hcount := varintSize_uint64 r.count
  have hecode := int32Size_le r.readEcode
  unfold ReadCmd.packedSize
  unfold fieldSize at *
  omega

end Proto

def frameSize (payloadLen : UInt32) : ℕ := 38 + varintSize payloadLen.toNat

def wideCall : SendCall := ⟨1, 8191, -1, -1, -1, true, 0, ⟨0, by decide⟩⟩

section
variable {call : SendCall} {len : UInt32} {m : Proto.Payload}

theorem hdr_recv_jobId (hjob : call.jobId < maxOutstandingJobs) (len : UInt32) :
    (call.hdr len).recv.jobId = call.jobId := by
  have hlt : call.jobId.toNat < 8192 := UInt64.lt_iff_toNat_lt.mp hjob
  have hmsb : (call.jobId.toBitVec.setWidth 32).msb = false := by
    rw [BitVec.msb_eq_false_iff_two_mul_lt, BitVec.toNat_setWidth, UInt64.toNat_toBitVec]
    omega
  apply UInt64.toBitVec_inj.mp
  simp only [SendCall.hdr, Proto.PayloadHdr.recv, Int64.toBitVec_toUInt64, Int32.toBitVec_toInt64,
    UInt32.toBitVec_toInt32, UInt64.toBitVec_toUInt32]
  rw [BitVec.signExtend_eq_setWidth_of_msb_false hmsb]
  apply BitVec.eq_of_toNat_eq
  rw [BitVec.toNat_setWidth, BitVec.toNat_setWidth, UInt64.toNat_toBitVec]
  omega

theorem jobIdSize_le (hjob : call.jobId < maxOutstandingJobs) :
    int32Size (call.hdr len).jobId ≤ 2 := by
  have hjobId : (call.hdr len).jobId.toInt64.toUInt64 = call.jobId := hdr_recv_jobId hjob len
  have hlt : call.jobId.toNat < 8192 := UInt64.lt_iff_toNat_lt.mp hjob
  unfold int32Size
  rw [hjobId]
  exact varintSize_mono (Nat.le_of_lt_succ hlt)

theorem hdrSize_le (hjob : call.jobId < maxOutstandingJobs) (len : UInt32) :
    (call.hdr len).packedSize ≤ 32 + varintSize len.toNat := by
  have hsequence := varintSize_uint32 call.sequence
  have hjobId : int32Size (call.hdr len).jobId ≤ 2 := jobIdSize_le hjob
  have hpriority := int32Size_le call.priority
  have harg := varintSize_uint64 call.job
  simp only [SendCall.hdr] at hjobId
  simp only [SendCall.hdr, Proto.PayloadHdr.packedSize, fieldSize]
  omega

theorem hdrSize_wide : (wideCall.hdr len).packedSize = 32 + varintSize len.toNat := by
  have hsequence : varintSize wideCall.sequence.toNat = 5 := by decide
  have hjobId : int32Size wideCall.jobId.toUInt32.toInt32 = 2 := by decide
  have hpriority : int32Size wideCall.priority = 10 := by decide
  have harg : varintSize wideCall.job.toNat = 10 := by decide
  simp only [SendCall.hdr, Proto.PayloadHdr.packedSize, fieldSize, hsequence, hjobId, hpriority,
    harg]
  omega

theorem delimited_hdrSize {n : ℕ} (hn : n ≤ 32 + varintSize len.toNat) : delimited n = n + 1 := by
  have hlen := varintSize_uint32 len
  have hsize : varintSize n ≤ 1 := varintSize_mono (show n ≤ 127 by omega)
  unfold delimited varintSize at *
  omega

theorem packedSize_le (hjob : call.jobId < maxOutstandingJobs) (hhdr : m.hdr = call.hdr len) :
    m.packedSize ≤ frameSize len + m.contentsSize := by
  have hsize := hdrSize_le hjob len
  unfold Proto.Payload.packedSize frameSize fieldSize
  rw [hhdr, delimited_hdrSize hsize]
  omega

theorem packedSize_le_sizeofPayload (hjob : call.jobId < maxOutstandingJobs)
    (hhdr : m.hdr = call.hdr len) (hcontents : m.contentsSize ≤ 12453) :
    m.packedSize ≤ sizeofPayload := by
  have hsize := packedSize_le hjob hhdr
  have hlen := varintSize_uint32 len
  unfold frameSize at hsize
  unfold sizeofPayload
  omega

theorem packedSize_wide (hhdr : m.hdr = wideCall.hdr len) :
    m.packedSize = frameSize len + m.contentsSize := by
  unfold Proto.Payload.packedSize frameSize fieldSize
  rw [hhdr, delimited_hdrSize hdrSize_wide.le, hdrSize_wide]
  omega

end

end SeamlessStack.Serdes

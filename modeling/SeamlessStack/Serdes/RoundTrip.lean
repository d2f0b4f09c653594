import SeamlessStack.Serdes.Packed
import SeamlessStack.Serdes.Safety

/-! A payload is delivered if, whenever it is sent with success, one message is handed over and the
receiver, which takes at most `sizeof(sstack_payload_t)` bytes, gets the same command with the same
structure from it. -/
namespace SeamlessStack.Serdes
open Lib Log

/-- The texts end in their arrays, and the lengths are those of what is there. -/
def FileHandle.InBounds (h : FileHandle) : Prop :=
  h.nameLen.toNat ≤ pathMax ∧ h.name.bytes.length < pathMax ∧
    h.address.text.bytes.length < ipv6AddrMax

def Storage.InBounds (s : Storage) : Prop :=
  s.path.bytes.length < pathMax ∧ s.mountPoint.bytes.length < maxMountPointLen ∧
    s.address.text.bytes.length < ipv6AddrMax

def Buffer.Holds (buf : Buffer) (len cap : ℕ) : Prop :=
  ∃ l, buf = .bytes l ∧ l.length = len ∧ len ≤ cap

def Data.InBounds (d : Data) : Prop := d.dataBuf.Holds d.dataLen.toNat data64k

def CommandFields.InBounds : CommandFields → Prop
  | .lookup dir what => dir.InBounds ∧ what.InBounds
  | .write cmd => cmd.data.InBounds
  | .create cmd => cmd.data.InBounds
  | .symlink newPath | .rename newPath => newPath.InBounds
  | .remove cmd | .rmdir cmd => cmd.path.Holds cmd.pathLen.toNat data4k
  | _ => True

def ResponseFields.InBounds : ResponseFields → Prop
  | .getattr stbuf => stbuf.length = sizeofStat
  | .lookup resp => resp.lookupPath.length ≤ data4k
  | .readlink realFile => realFile.InBounds
  | .read resp => resp.data.InBounds
  | _ => True

def Body.InBounds : Body → Prop
  | .storage _ s => s.InBounds
  | .command extentHandle fields => extentHandle.InBounds ∧ fields.InBounds
  | .response _ _ fields => fields.InBounds

/-- Nothing but the version survives in the attributes of a policy, and no plugin can be sent. -/
def PolicyEntry.RoundTrips (e : PolicyEntry) : Prop :=
  e.peAttr = ⟨e.peAttr.ver, 0, 0, 0, 0, 0⟩ ∧ e.peNumPlugins = 0

def Data.bytes (d : Data) : List UInt8 :=
  match d.dataBuf with
  | .bytes l => l
  | .overwritten _ => []

def Data.Shown (d : Data) : Prop := 0 ∈ d.bytes.take (81 - decimals d.dataLen.toNat)

def FileHandle.Shown (h : FileHandle) : Prop :=
  h.nameLen = 0 ∧ h.name.bytes = [] ∨ h.name.bytes.length < h.nameLen.toNat ∧
    h.name.bytes.length < 80 - decimals h.nameLen.toNat

def WriteCmd.part (cmd : WriteCmd) : Proto.CommandStruct :=
  { commandInit with writeCmd := some ⟨cmd.inodeNo, cmd.offset, cmd.count,
      ⟨cmd.data.dataLen, cmd.data.bytes⟩, cmd.pe.fields⟩ }

def ReadResp.part (commandOk : Int32) (resp : ReadResp) : Proto.ResponseStruct :=
  { responseInit with
    commandOk := commandOk.toUInt32
    readResp := some ⟨resp.count, resp.eof, ⟨resp.data.dataLen, resp.data.bytes⟩⟩ }

def CommandFields.RoundTrips (extentHandle : FileHandle) : CommandFields → Prop
  | .access _ | .mkdir _ | .commit _ => extentHandle = .empty
  | .write cmd => extentHandle = .empty ∧ cmd.pe.RoundTrips ∧ cmd.data.Shown ∧
      frameSize sizeofPayload.toUInt32 + fieldSize (delimited cmd.part.packedSize) ≤ sizeofPayload
  | .read cmd => extentHandle.Shown ∧ extentHandle.address.text.bytes.length = ipv4AddrMax ∧
      cmd.pe.RoundTrips
  | _ => False

def ResponseFields.RoundTrips (commandOk : Int32) (handle : UInt64) : ResponseFields → Prop
  | .bare _ => True
  | .read resp => handle = 0 ∧
      frameSize sizeofPayloadHdr + fieldSize (delimited (resp.part commandOk).packedSize) ≤
        sizeofPayload
  | .write resp => handle = 0 ∧ resp.fileCreateOk = commandOk.toUInt32
  | _ => False

/-- The storage commands of which nothing is lost, with room in the log and memory for texts. -/
structure Storage.RoundTrips (mem : TextMalloc) (isIpv4 : Bool) (c : StorageCommand)
    (s : Storage) : Prop where
  address : isIpv4 = true → s.address.text.bytes.length < ipv4AddrMax
  numChunksWritten : s.numChunksWritten = 0
  protocol : s.address.protocol = 0
  shown : s.shown c ≤ 38
  addressMalloc : mem.address = true
  pathMalloc : mem.path = true ∨ s.path.bytes = []
  mountPointMalloc : mem.mountPoint = true ∨ s.mountPoint.bytes = []

/-- The payloads that come out as they went in. -/
def Body.RoundTrips (mem : TextMalloc) (isIpv4 : Bool) : Body → Prop
  | .storage c s => s.RoundTrips mem isIpv4 c
  | .command extentHandle fields => fields.RoundTrips extentHandle
  | .response commandOk handle fields => fields.RoundTrips commandOk handle

/-- `bytes` may be what `pack` makes of a packet, and `unpack` knows them. -/
structure Packet.Packed (packet : Packet) (bytes : List UInt8)
    (unpack : List UInt8 → Option Proto.Payload) : Prop where
  unpack_eq : unpack bytes = packet.unpack
  length_eq : ∀ m, packet = .message m → bytes.length = m.packedSize

/-- The result of a `recv` when one message is on its way. -/
def received (bytes : List UInt8) : Rx where
  ret := (bytes.take sizeofPayload).length
  errno := 0
  buffer := bytes.take sizeofPayload
  length_eq _ := rfl
  length_le := List.length_take_le _ _

/-- With the memory `mem` for texts every call of `sstack_send_payload` is defined, and if it
returns zero, one message was handed over, of which `sstack_recv_payload` makes the same payload,
with the job, the priority and the argument. Both ends use transports of one kind, and the receiver
has memory. -/
def Delivered (mem : TextMalloc) (isIpv4 : Bool) (body : Body) : Prop :=
  ∀ env call behind ctx peer, env.texts = mem → peer ≠ 0 → peer ≠ -1 →
    ∃ sent, sstackSendPayload env isIpv4 call body = .ok sent ∧
      (sent.ret = 0 → ∃ packet, sent.handed = [packet] ∧
        ∀ bytes unpack, packet.Packed bytes unpack →
          ∃ p, sstackRecvPayload unpack ⟨true, true, true⟩ ctx isIpv4 behind peer
              (received bytes) = .ok (some p) ∧
            p.body = body ∧ p.hdr.jobId = call.jobId ∧ p.hdr.priority = call.priority ∧
            p.hdr.arg = call.job)

/-- What the two ends of a transfer do not determine. -/
structure Trip (mem : TextMalloc) where
  env : SendEnv
  call : SendCall
  behind : ℕ → UInt8
  ctx : ℕ
  texts_eq : env.texts = mem
  jobId_lt : call.jobId < maxOutstandingJobs

/-- The message is made and read without a fault, gives the payload back, and fits in the
receiver. -/
def Trip.Sends {mem : TextMalloc} (t : Trip mem) (isIpv4 : Bool) (body : Body) : Prop :=
  ∃ m, body.send t.env t.call.hdr isIpv4 = .ok (some (.message m)) ∧
    m.recvBody t.ctx isIpv4 t.behind = .ok (some body) ∧ m.packedSize ≤ sizeofPayload

def Body.Reported (env : SendEnv) (body : Body) : Prop :=
  (∀ txRet (errno : Fin numErrno), body.report env (sendRet txRet errno) = .ok ()) ∧
    body.reportNomem env = .ok ()

def Trip.wide (mem : TextMalloc) (stale behind : ℕ → UInt8) (ctx : ℕ) : Trip mem :=
  ⟨⟨stale, [], ctx, mem, .bare (.unknown 0), .inl rfl⟩, wideCall, behind, ctx, rfl, by decide⟩

section Trips
variable {mem : TextMalloc}

instance : Nonempty (Trip mem) := ⟨.wide mem (fun _ => 0) (fun _ => 0) 0⟩

theorem Trip.forall_packedSize_le {len : UInt32} {c : Command} {storage : Option Proto.Storage}
    {cmd : Option Proto.CommandStruct} {response : Option Proto.ResponseStruct} :
    (∀ t : Trip mem,
      Proto.Payload.packedSize ⟨t.call.hdr len, c, storage, cmd, response⟩ ≤ sizeofPayload) ↔
      frameSize len + Proto.Payload.contentsSize ⟨wideCall.hdr len, c, storage, cmd, response⟩ ≤
        sizeofPayload := by
  constructor
  · intro h
    have hwide := h (.wide mem (fun _ => 0) (fun _ => 0) 0)
    rwa [packedSize_wide rfl] at hwide
  · intro h t
    exact (packedSize_le t.jobId_lt rfl).trans h

end Trips

section Copies
variable {n cap k : ℕ} {stale behind : ℕ → UInt8}

@[simp] theorem within_length (t : Text n) : (Text.within stale t k).length = k := by
  simp [Text.within]

theorem within_strlen (t : Text n) : Text.within stale t t.bytes.length = t.bytes := by
  unfold Text.within
  rw [ahead_of_le (by simp)]
  simp

theorem takeWhile_within (t : Text n) :
    (Text.within stale t k).takeWhile (· ≠ 0) = t.bytes.take k := by
  by_cases hk : k ≤ t.bytes.length
  · have hwithin : Text.within stale t k = t.bytes.take k := by
      unfold Text.within
      rw [ahead_of_le (by simp; omega), List.take_append_of_le_length hk]
    rw [hwithin, List.takeWhile_eq_self_iff]
    intro a ha
    have hne : a ≠ 0 := fun h => t.nul (h ▸ List.mem_of_mem_take ha)
    simpa using hne
  · obtain ⟨j, rfl⟩ : ∃ j, k = t.bytes.length + (j + 1) := ⟨k - t.bytes.length - 1, by omega⟩
    unfold Text.within ahead
    rw [List.append_assoc, List.take_length_add_append, List.singleton_append, List.take_succ_cons,
      t.takeWhile_append_zero, List.take_of_length_le (by omega)]

theorem strncpy_within (t : Text n) (hk : k ≤ cap) :
    ∃ t' : Text cap, strncpy cap k behind (Text.within stale t k) = .ok t' ∧
      t'.bytes = t.bytes.take k := by
  unfold strncpy
  split_ifs with hzero hnil
  · exact ⟨_, rfl, by simp [hzero, Text.empty]⟩
  · have hlen : (Text.within stale t k).length = k := within_length t
    rw [hnil] at hlen
    exact absurd hlen.symm hzero
  · refine ⟨_, rfl, ?_⟩
    have hself : ahead behind (Text.within stale t k) k = Text.within stale t k := by
      rw [ahead_of_le (by simp), List.take_of_length_le (by simp)]
    simp only [Text.ofBytes, hself, takeWhile_within]

theorem strncpy_self (t : Text n) : strncpy n t.bytes.length behind t.bytes = .ok t := by
  unfold strncpy
  split_ifs with hzero hnil
  · have hnil : t.bytes = [] := List.length_eq_zero_iff.mp hzero
    congr 1
    exact Text.ext hnil.symm
  · rw [hnil] at hzero
    exact absurd rfl hzero
  · congr 1
    apply Text.ext
    simp only [Text.ofBytes, ahead_self, t.takeWhile_bytes]
  · rename_i hle
    exact absurd t.length_le hle

theorem strcpy_within (t : Text n) (hlt : t.bytes.length < cap) :
    ∃ t' : Text cap, strcpy cap behind (Text.within stale t cap) = .ok t' ∧
      t'.bytes = t.bytes := by
  have hself : ahead behind (Text.within stale t cap) cap = Text.within stale t cap := by
    rw [ahead_of_le (by simp), List.take_of_length_le (by simp)]
  have htext : (Text.within stale t cap).takeWhile (· ≠ 0) = t.bytes := by
    rw [takeWhile_within, List.take_of_length_le hlt.le]
  have hzero : 0 ∈ Text.within stale t cap := by
    -- otherwise all of the array would be the text
    by_contra hnot
    have hall : (Text.within stale t cap).takeWhile (· ≠ 0) = Text.within stale t cap := by
      rw [List.takeWhile_eq_self_iff]
      intro a ha
      have hne : a ≠ 0 := fun h => hnot (h ▸ ha)
      simpa using hne
    have hlen : (Text.within stale t cap).length = cap := within_length t
    rw [← hall, htext] at hlen
    omega
  have hnil : Text.within stale t cap ≠ [] := List.ne_nil_of_mem hzero
  unfold strcpy
  rw [if_neg hnil, if_pos (by rwa [hself])]
  refine ⟨_, rfl, ?_⟩
  simp only [Text.ofBytes, hself, htext]

theorem forall_zero_mem_within (t : Text n) :
    (∀ stale, 0 ∈ Text.within stale t k) ↔ t.bytes.length < k := by
  unfold Text.within
  rw [forall_mem_ahead]
  constructor
  · intro hmem
    by_contra hle
    rw [List.take_append_of_le_length (not_lt.mp hle)] at hmem
    exact t.nul (List.mem_of_mem_take hmem)
  · intro hlt
    rw [List.take_of_length_le (by simpa using hlt)]
    simp

theorem within_take (t : Text n) (j : ℕ) :
    (Text.within stale t k).take j = Text.within stale t (min j k) := ahead_take

end Copies

section Structures
variable {env : SendEnv} {hdr : UInt32 → Proto.PayloadHdr} {isIpv4 : Bool} {behind : ℕ → UInt8}

theorem toUInt8_shiftRight (x : UInt8) {k : UInt32} (hk : 8 ≤ k.toNat % 32) :
    (x.toUInt32 >>> k).toUInt8 = 0 := by
  apply UInt8.toNat_inj.mp
  rw [UInt32.toNat_toUInt8, UInt32.toNat_shiftRight, UInt8.toNat_toUInt32,
    Nat.shiftRight_eq_div_pow, Nat.div_eq_of_lt]
  · rfl
  · exact x.toNat_lt.trans_le (Nat.pow_le_pow_right (by decide) hk)

theorem Attribute.recv_send (a : Attribute) :
    a.send.recv = a ↔ a = ⟨a.ver, 0, 0, 0, 0, 0⟩ := by
  obtain ⟨ver, quota, qos, hidden, replicas, dr⟩ := a
  simp only [Attribute.send, Proto.Attribute.recv, Attribute.mk.injEq, UInt8.toUInt8_toUInt32,
    toUInt8_shiftRight hidden (k := 8) (by decide),
    toUInt8_shiftRight hidden (k := 16) (by decide),
    toUInt8_shiftRight hidden (k := 24) (by decide), true_and]
  constructor
  · rintro ⟨rfl, rfl, rfl, rfl, rfl⟩
    exact ⟨rfl, rfl, rfl, rfl, rfl⟩
  · rintro ⟨rfl, rfl, rfl, rfl, rfl⟩
    exact ⟨rfl, rfl, rfl, rfl, rfl⟩

theorem PolicyEntry.send_eq_ok {e : PolicyEntry} {m : Proto.PolicyEntry} :
    e.send = .ok m ↔ e.send = .ok e.fields ∧ m = e.fields := by
  unfold PolicyEntry.send
  split_ifs
  · simp only [Except.ok.injEq, true_and]
    exact eq_comm
  · simp

theorem PolicyEntry.send_recv_iff (e : PolicyEntry) :
    e.send = .ok e.fields ∧ e.fields.recv = .ok e ↔ e.RoundTrips := by
  obtain ⟨attr, plugins, refcount, lock, index⟩ := e
  unfold PolicyEntry.send PolicyEntry.RoundTrips
  dsimp only
  split_ifs with hplugins
  · simp only [PolicyEntry.fields, Proto.PolicyEntry.recv, hplugins, if_true, true_and,
      Except.ok.injEq, PolicyEntry.mk.injEq, Attribute.recv_send, Int32.toInt32_toUInt32,
      UInt8.toUInt8_toUInt32, and_true]
    refine and_congr_right fun _ => ?_
    exact eq_comm
  · have hne : plugins ≠ 0 := by
      rintro rfl
      exact hplugins rfl
    simp [hne]

theorem copyText_eq_ok {allocated : Bool} {bytes copied : List UInt8} :
    copyText allocated bytes = .ok copied ↔ (allocated = true ∨ bytes = []) ∧ bytes = copied := by
  unfold copyText
  rw [require_bind_eq_ok]
  simp [pure, Except.pure]

theorem strlen_eq_ok {n : ℕ} {text : Text n} {k : ℕ} :
    strlen text = .ok k ↔ text.bytes.length < n ∧ text.bytes.length = k := by
  unfold strlen
  split_ifs with hlt
  · simp [hlt]
  · simp [hlt]

theorem Proto.Storage.recv_eq_ok_imp {ctx : ℕ} {m : Proto.Storage} {s : Serdes.Storage}
    (h : m.recv ctx isIpv4 behind = .ok s) : s.numChunksWritten = 0 ∧ s.address.protocol = 0 := by
  simp only [Proto.Storage.recv, bind_eq_ok] at h
  obtain ⟨path, _, _, _, mountPoint, _, text, _, hs⟩ := h
  cases hs
  exact ⟨rfl, rfl⟩

theorem Address.send_eq_ok_imp {a : Address} {m : Proto.Address} (h : a.send isIpv4 env = .ok m) :
    env.texts.address = true ∧ (isIpv4 = true → a.text.bytes.length < ipv4AddrMax) := by
  obtain ⟨hmalloc, h⟩ := require_bind_eq_ok.mp h
  refine ⟨hmalloc, ?_⟩
  rintro rfl
  exact (require_bind_eq_ok.mp h).1

variable {s : Storage}

theorem Storage.send_eq_ok_imp {c : StorageCommand} {m : Proto.Storage}
    (h : s.send isIpv4 env c = .ok m) :
    env.texts.address = true ∧ (isIpv4 = true → s.address.text.bytes.length < ipv4AddrMax) ∧
      (env.texts.path = true ∨ s.path.bytes = []) ∧
      (env.texts.mountPoint = true ∨ s.mountPoint.bytes = []) := by
  simp only [Storage.send, bind_eq_ok, strlen_eq_ok, copyText_eq_ok] at h
  obtain ⟨_, _, _, ⟨_, rfl⟩, _, ⟨hpath, _⟩, _, ⟨_, rfl⟩, _, ⟨hmount, _⟩, address, haddress, _⟩ := h
  rw [within_strlen] at hpath hmount
  have haddress := Address.send_eq_ok_imp haddress
  exact ⟨haddress.1, haddress.2, hpath, hmount⟩

/-- The message of a storage command, whose address has all bytes of its array. -/
def Storage.part (env : SendEnv) (isIpv4 : Bool) (s : Storage) : Proto.Storage :=
  ⟨s.path.bytes, s.mountPoint.bytes, s.weight, s.nblocks, s.protocol, s.numChunksWritten,
    if isIpv4 then ⟨ipv4, some (Text.within env.stale s.address.text ipv4AddrMax), none⟩
    else ⟨ipv6, none, some (Text.within env.stale s.address.text ipv6AddrMax)⟩⟩

theorem Storage.RoundTrips.path_le {mem : TextMalloc} {c : StorageCommand}
    (h : s.RoundTrips mem isIpv4 c) : s.path.bytes.length ≤ 20 := by
  have hshown := h.shown
  have hcommand : 18 ≤ c.stringify.length := by cases c <;> decide
  unfold Storage.shown at hshown
  omega

theorem Storage.RoundTrips.send_eq {c : StorageCommand} (h : s.RoundTrips env.texts isIpv4 c)
    (hs : s.InBounds) :
    s.send isIpv4 env c = .ok (s.part env isIpv4) := by
  obtain ⟨hpath, hmount, haddress⟩ := hs
  have hfits : Fits env.ctx sfsInfo
      ("sstack_send_payload:  called with path =   ipaddr = \n".length + s.shown c) := by
    have hshown := h.shown
    intro _
    change 53 + s.shown c < 128
    omega
  have hkind : s.address.send isIpv4 env = .ok (s.part env isIpv4).address := by
    unfold Address.send Storage.part
    rw [require_bind_of h.addressMalloc]
    cases hip : isIpv4 with
    | true => exact require_bind_of (h.address hip) _
    | false => exact require_bind_of haddress _
  unfold Storage.send
  rw [require_bind_of hfits, strlen_eq_ok.mpr ⟨hpath, rfl⟩, ok_bind, within_strlen,
    copyText_eq_ok.mpr ⟨h.pathMalloc, rfl⟩, ok_bind, strlen_eq_ok.mpr ⟨hmount, rfl⟩, ok_bind,
    within_strlen, copyText_eq_ok.mpr ⟨h.mountPointMalloc, rfl⟩, ok_bind, hkind]
  rfl

theorem Storage.RoundTrips.recv_eq {mem : TextMalloc} {c : StorageCommand} {ctx : ℕ}
    (h : s.RoundTrips mem isIpv4 c) (hs : s.InBounds) :
    (s.part env isIpv4).recv ctx isIpv4 behind = .ok s := by
  have hpath := h.path_le
  have hchunks := h.numChunksWritten
  have hprotocol := h.protocol
  have hipv4 := h.address
  obtain ⟨path, mountPoint, weight, nblocks, protocol, chunks, ⟨kind, text⟩⟩ := s
  dsimp only at hpath hchunks hprotocol hipv4
  subst hchunks hprotocol
  have hfits : Fits ctx sfsDebug
      ("sstack_recv_payload: storage.path = \n".length + path.bytes.length) := by
    intro _
    change 37 + path.bytes.length < 128
    omega
  cases isIpv4 with
  | true =>
    obtain ⟨t, ht, hbytes⟩ : ∃ t, strcpy ipv4AddrMax behind
        (Text.within env.stale text ipv4AddrMax) = .ok t ∧ t.bytes = text.bytes :=
      strcpy_within text (hipv4 rfl)
    have htext : t.widen ipv4AddrMax_le = text := Text.ext hbytes
    simp only [Storage.part, Proto.Storage.recv, strncpy_self, ok_bind, require_bind_of hfits,
      if_true, Option.getD_some, ht, pure_bind, htext]
    rfl
  | false =>
    obtain ⟨t, ht, hbytes⟩ : ∃ t, strcpy ipv6AddrMax behind
        (Text.within env.stale text ipv6AddrMax) = .ok t ∧ t.bytes = text.bytes :=
      strcpy_within text hs.2.2
    have htext : t = text := Text.ext hbytes
    simp only [Storage.part, Proto.Storage.recv, strncpy_self, ok_bind, require_bind_of hfits,
      Bool.false_eq_true, if_false, Option.getD_some, ht, htext]
    rfl

theorem Storage.part_packedSize_le (hs : s.InBounds)
    (hpath : s.path.bytes.length ≤ 20) : (s.part env isIpv4).packedSize ≤ 200 := by
  have haddress : (s.part env isIpv4).address.packedSize ≤ 54 := by
    have hlong : fieldSize (delimited ipv6AddrMax) ≤ 43 := by decide
    have hshort : fieldSize (delimited ipv4AddrMax) ≤ 43 := by decide
    have hkind := int32Size_le (s.part env isIpv4).address.protocol.toInt32
    unfold Proto.Address.packedSize
    cases isIpv4 with
    | true =>
      simp only [Storage.part, if_true, optionalSize_some, optionalSize_none, within_length]
        at hkind ⊢
      unfold fieldSize at *
      omega
    | false =>
      simp only [Storage.part, Bool.false_eq_true, if_false, optionalSize_some, optionalSize_none,
        within_length] at hkind ⊢
      unfold fieldSize at *
      omega
  have haddress := fieldSize_delimited_le (haddress.trans (by decide))
  have hpath' := fieldSize_delimited_le (hpath.trans (by decide))
  have hmount : s.mountPoint.bytes.length ≤ 16 := hs.2.1.le
  have hmount' := fieldSize_delimited_le (hmount.trans (by decide))
  have hweight := varintSize_uint32 s.weight
  have hnblocks := varintSize_uint64 s.nblocks
  have hprotocol := int32Size_le s.protocol.toInt32
  have hchunks := varintSize_uint64 s.numChunksWritten
  unfold Proto.Storage.packedSize
  simp only [Storage.part] at *
  unfold fieldSize at *
  omega

variable {h : FileHandle}

theorem FileHandle.sendExtentHandle_eq (hh : h.InBounds) :
    h.sendExtentHandle env = .ok ⟨h.nameLen.toUInt32,
      Text.within env.stale h.name h.nameLen.toNat, h.proto,
      ⟨h.address.protocol, some h.address.text.bytes, none⟩⟩ := by
  obtain ⟨hlen, -, haddress⟩ := hh
  unfold FileHandle.sendExtentHandle strlen
  rw [if_pos haddress, ok_bind, require_bind_of hlen, within_strlen]
  rfl

/-- The address survives if it has the sixteen bytes that are copied. -/
theorem forall_copyAddress_eq_iff {n : ℕ} (t : Text n) :
    (∀ behind, t.bytes ≠ [] ∧ (ahead behind t.bytes ipv4AddrMax).takeWhile (· ≠ 0) = t.bytes) ↔
      t.bytes.length = ipv4AddrMax := by
  constructor
  · intro h
    obtain ⟨-, heq⟩ := h fun _ => 1
    have hall : (ahead (fun _ => 1) t.bytes ipv4AddrMax).takeWhile (· ≠ 0) =
        ahead (fun _ => 1) t.bytes ipv4AddrMax := by
      rw [List.takeWhile_eq_self_iff]
      intro a ha
      rcases List.mem_append.mp (List.mem_of_mem_take ha) with ha | ha
      · have hne : a ≠ 0 := fun h => t.nul (h ▸ ha)
        simpa using hne
      · obtain ⟨_, _, rfl⟩ := List.mem_map.mp ha
        decide
    rw [hall] at heq
    rw [← heq, ahead_length]
  · intro hlen behind
    refine ⟨?_, ?_⟩
    · intro hnil
      rw [hnil] at hlen
      cases hlen
    · rw [← hlen, ahead_self, t.takeWhile_bytes]

theorem copyAddress_eq_ok {src : List UInt8} {t : Text ipv4AddrMax} :
    strncpy ipv4AddrMax ipv4AddrMax behind src = .ok t ↔
      src ≠ [] ∧ (ahead behind src ipv4AddrMax).takeWhile (· ≠ 0) = t.bytes := by
  unfold strncpy
  split_ifs with hzero hnil hle
  · cases hzero
  · simp [hnil]
  · simp only [Except.ok.injEq, Text.ext_iff, Text.ofBytes, ne_eq, hnil, not_false_eq_true,
      true_and]
  · exact absurd le_rfl hle

theorem FileHandle.exists_send_recv (hh : h.InBounds) :
    (∃ f, h.sendExtentHandle env = .ok f ∧ f.recvExtentHandle behind = .ok h) ↔
      (FitsBytes sfsDebug sfsDebug (48 + decimals h.nameLen.toNat) behind
        (Text.within env.stale h.name h.nameLen.toNat) ∧
        h.name.bytes.length ≤ h.nameLen.toNat) ∧ h.address.text.bytes ≠ [] ∧
        (ahead behind h.address.text.bytes ipv4AddrMax).takeWhile (· ≠ 0) =
          h.address.text.bytes := by
  obtain ⟨name', hname', hbytes⟩ : ∃ t : Text pathMax, strncpy pathMax h.nameLen.toNat behind
      (Text.within env.stale h.name h.nameLen.toNat) = .ok t ∧
      t.bytes = h.name.bytes.take h.nameLen.toNat := strncpy_within h.name hh.1
  have hname : name' = h.name ↔ h.name.bytes.length ≤ h.nameLen.toNat := by
    rw [Text.ext_iff, hbytes, List.take_eq_self_iff]
  simp only [FileHandle.sendExtentHandle_eq hh, Except.ok.injEq, exists_eq_left',
    Proto.FileName.recvExtentHandle, require_bind_eq_ok, within_length, hname', ok_bind, ← hname,
    and_assoc]
  refine and_congr_right fun _ => ?_
  obtain ⟨nameLen, name, proto, ⟨protocol, text⟩⟩ := h
  dsimp only
  constructor
  · intro hrecv
    obtain ⟨t', ht', hres⟩ := bind_eq_ok.mp hrecv
    obtain ⟨t, ht, hwiden⟩ := bind_eq_ok.mp ht'
    cases hwiden
    simp only [pure, Except.pure, Except.ok.injEq, FileHandle.mk.injEq, Address.mk.injEq] at hres
    obtain ⟨-, rfl, -, -, rfl⟩ := hres
    exact ⟨rfl, copyAddress_eq_ok.mp ht⟩
  · rintro ⟨rfl, hcopy⟩
    obtain ⟨t, ht⟩ : ∃ t : Text ipv4AddrMax, t.bytes = text.bytes :=
      ⟨.ofBytes (ahead behind text.bytes ipv4AddrMax) ahead_length.le, hcopy.2⟩
    have htext : t.widen ipv4AddrMax_le = text := Text.ext ht
    have hlen : nameLen.toNat.toUInt64 = nameLen := UInt64.ofNat_toNat
    rw [copyAddress_eq_ok.mpr ⟨hcopy.1, hcopy.2.trans ht.symm⟩, ok_bind, pure_bind, htext, hlen]
    rfl

/-- The receiver takes the name for a text: it ends inside of what was sent, unless nothing was. -/
theorem FileHandle.forall_fits_iff_shown (hh : h.InBounds) :
    (∀ stale behind, FitsBytes sfsDebug sfsDebug (48 + decimals h.nameLen.toNat) behind
      (Text.within stale h.name h.nameLen.toNat) ∧ h.name.bytes.length ≤ h.nameLen.toNat) ↔
      h.Shown := by
  have hdecimals : decimals h.nameLen.toNat ≤ 4 :=
    decimals_le (by decide) (hh.1.trans_lt (by decide))
  have hnull : 48 + decimals h.nameLen.toNat + "(null)".length < sfsLogEntryLen := by
    change 48 + decimals h.nameLen.toNat + 6 < 128
    omega
  have hnil : ∀ stale, Text.within stale h.name h.nameLen.toNat = [] ↔ h.nameLen.toNat = 0 := by
    intro stale
    rw [← List.length_eq_zero_iff, within_length]
  have hzero : h.nameLen.toNat = 0 ↔ h.nameLen = 0 := by
    rw [← UInt64.toNat_inj]
    rfl
  simp only [forall_and, forall_const, forall_fitsBytes hnull, hnil, within_take, le_refl,
    forall_or_left, forall_zero_mem_within, lt_min_iff]
  rw [FileHandle.Shown, hzero, ← List.length_eq_zero_iff, ← hzero]
  unfold sfsLogEntryLen
  omega

theorem FileHandle.forall_exists_send_recv {mem : TextMalloc} (hh : h.InBounds) :
    (∀ t : Trip mem, ∃ f, h.sendExtentHandle t.env = .ok f ∧
      f.recvExtentHandle t.behind = .ok h) ↔
      h.Shown ∧ h.address.text.bytes.length = ipv4AddrMax := by
  simp only [FileHandle.exists_send_recv hh]
  rw [forall_and, ← FileHandle.forall_fits_iff_shown hh, ← forall_copyAddress_eq_iff]
  exact and_congr
    ⟨fun h stale behind => h (.wide mem stale behind 0), fun h t => h t.env.stale t.behind⟩
    ⟨fun h behind => h (.wide mem behind behind 0), fun h t => h t.behind⟩

theorem FileHandle.part_packedSize_le {f : Proto.FileName} (hh : h.InBounds)
    (hf : h.sendExtentHandle env = .ok f) : f.packedSize ≤ 4200 := by
  rw [FileHandle.sendExtentHandle_eq hh] at hf
  cases hf
  obtain ⟨hlen, -, haddress⟩ := hh
  have hname := fieldSize_delimited_le (hlen.trans (by decide))
  have htext := fieldSize_delimited_le (haddress.le.trans (by decide))
  have haddress : Proto.Address.packedSize
      ⟨h.address.protocol, some h.address.text.bytes, none⟩ ≤ 60 := by
    have hkind := int32Size_le h.address.protocol.toInt32
    simp only [Proto.Address.packedSize, optionalSize_some, optionalSize_none]
    unfold ipv6AddrMax at *
    unfold fieldSize at *
    omega
  have haddress := fieldSize_delimited_le (haddress.trans (by decide))
  have hnameLen := varintSize_uint32 h.nameLen.toUInt32
  have hproto := int32Size_le h.proto.toInt32
  simp only [Proto.FileName.packedSize, within_length]
  unfold pathMax fieldSize at *
  omega

theorem Data.send_eq {d : Data} (hd : d.InBounds) : ∃ l, d.dataBuf = .bytes l ∧
    l.length = d.dataLen.toNat ∧ l.length ≤ data64k ∧ d.send = .ok ⟨d.dataLen, l⟩ := by
  obtain ⟨l, hbuf, hlen, hle⟩ := hd
  refine ⟨l, hbuf, hlen, hlen ▸ hle, ?_⟩
  unfold Data.send
  rw [hbuf]
  dsimp only
  rw [require_bind_of hlen.ge, ← hlen, List.take_length]
  rfl

theorem memcpy_self {l : List UInt8} {cap : ℕ} (hle : l.length ≤ cap) :
    memcpy cap l.length behind l = .ok l := by
  unfold memcpy
  split_ifs with hzero hnil
  · rw [List.length_eq_zero_iff.mp hzero]
  · rw [hnil] at hzero
    exact absurd rfl hzero
  · rw [ahead_self]

end Structures

end SeamlessStack.Serdes

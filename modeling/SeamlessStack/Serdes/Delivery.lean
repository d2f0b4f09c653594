import SeamlessStack.Serdes.RoundTrip

/-! Which payloads are delivered: what becomes of the message of each command and response. -/
namespace SeamlessStack.Serdes
open Lib Log

variable {s : Storage} {body : Body}

section Commands
variable {mem : TextMalloc} {t : Trip mem} {isIpv4 : Bool} {h : FileHandle}

theorem sends_write {cmd : WriteCmd} (hd : cmd.data.InBounds) :
    t.Sends isIpv4 (.command h (.write cmd)) ↔ h = .empty ∧ cmd.pe.RoundTrips ∧
      (FitsText sfsDebug sfsDebug (47 + decimals cmd.data.dataLen.toNat) t.env.stale
          cmd.data.bytes ∧
        FitsBytes sfsDebug sfsDebug 7 t.behind cmd.data.bytes) ∧
      Proto.Payload.packedSize ⟨t.call.hdr sizeofPayload.toUInt32, .write, none, some cmd.part,
        none⟩ ≤ sizeofPayload := by
  obtain ⟨inodeNo, offset, count, ⟨dataLen, dataBuf⟩, pe⟩ := cmd
  obtain ⟨l, hbuf, hlen, hle, hdata⟩ := Data.send_eq hd
  dsimp only at hbuf hlen hdata
  subst hbuf
  have hcopy : memcpy data64k dataLen.toNat t.behind l = .ok l := by
    rw [← hlen]
    exact memcpy_self hle
  rw [← PolicyEntry.send_recv_iff]
  unfold Trip.Sends
  simp only [Body.send, CommandFields.send, Data.log, hdata, ok_bind]
  constructor
  · rintro ⟨m, hsend, hrecv, hsize⟩
    obtain ⟨hlog, hsend⟩ := require_bind_eq_ok.mp hsend
    obtain ⟨pe', hpe', hm⟩ := bind_eq_ok.mp hsend
    obtain ⟨hpe, rfl⟩ := PolicyEntry.send_eq_ok.mp hpe'
    cases hm
    simp only [Proto.Payload.recvBody, Proto.Payload.commandField, deref, ok_bind,
      Proto.WriteCmd.recv, hcopy, bind_eq_ok] at hrecv
    obtain ⟨fields, ⟨_, hshown, pe'', hpe'', hfields⟩, hbody⟩ := hrecv
    cases hfields
    cases hbody
    exact ⟨rfl, ⟨hpe, hpe''⟩, ⟨hlog, require_eq_ok.mp hshown⟩, hsize⟩
  · rintro ⟨rfl, ⟨hpe', hpe⟩, ⟨hlog, hshown⟩, hsize⟩
    refine ⟨_, (require_bind_of hlog _).trans (by rw [hpe']; rfl), ?_, hsize⟩
    have hwrite : Proto.WriteCmd.recv t.behind
        ⟨inodeNo, offset, count, ⟨dataLen, l⟩, pe.fields⟩ =
          .ok (.write ⟨inodeNo, offset, count, ⟨dataLen, .bytes l⟩, pe⟩) :=
      (require_bind_of hshown _).trans (by rw [hcopy, ok_bind, hpe]; rfl)
    exact bind_eq_ok.mpr ⟨_, rfl, bind_eq_ok.mpr ⟨_, hwrite, rfl⟩⟩

/-- The text at the start of the data ends inside of them. -/
theorem Data.forall_fits_iff_shown (mem : TextMalloc) (d : Data) :
    (∀ t : Trip mem, FitsText sfsDebug sfsDebug (47 + decimals d.dataLen.toNat) t.env.stale
      d.bytes ∧ FitsBytes sfsDebug sfsDebug 7 t.behind d.bytes) ↔ d.Shown := by
  have hsender : (∀ stale, FitsText sfsDebug sfsDebug (47 + decimals d.dataLen.toNat) stale
      d.bytes) ↔ d.Shown := by
    rw [forall_fitsText, forall_prop_of_true le_rfl, Data.Shown, Nat.sub_add_eq]
    rfl
  have hreceiver : (∀ behind, FitsBytes sfsDebug sfsDebug 7 behind d.bytes) ↔
      d.bytes = [] ∨ 0 ∈ d.bytes.take 121 := by
    rw [forall_fitsBytes (by decide), forall_prop_of_true le_rfl]
    rfl
  constructor
  · intro h
    exact hsender.mp fun stale => (h (.wide mem stale stale 0)).1
  · intro h t
    have hzero : 0 ∈ d.bytes.take 121 :=
      List.mem_of_mem_take (i := 81 - decimals d.dataLen.toNat) <| by
        rw [List.take_take, min_eq_left (by omega)]
        exact h
    exact ⟨hsender.mpr h _, hreceiver.mpr (.inr hzero) _⟩

theorem sends_plain {c : Command} {fields : CommandFields} {cmd : Proto.CommandStruct}
    {len : UInt32}
    (hsend : fields.send t.env t.call.hdr h = .ok (some (commandPacket t.call.hdr len c cmd)))
    (hrecv : Proto.Payload.recvBody t.ctx isIpv4 t.behind
      ⟨t.call.hdr len, c, none, some cmd, none⟩ = .ok (some (.command .empty fields)))
    (hsize : cmd.packedSize ≤ 12450) :
    t.Sends isIpv4 (.command h fields) ↔ h = .empty := by
  have hsmall : Proto.Payload.packedSize ⟨t.call.hdr len, c, none, some cmd, none⟩ ≤
      sizeofPayload := by
    refine packedSize_le_sizeofPayload t.jobId_lt rfl ?_
    rw [Proto.contentsSize_command]
    exact (fieldSize_delimited_le (hsize.trans (by decide))).trans (by omega)
  unfold Trip.Sends Body.send
  dsimp only
  rw [hsend]
  simp only [commandPacket, Except.ok.injEq, Option.some.injEq, Packet.message.injEq,
    exists_eq_left', hrecv, Body.command.injEq, and_true, hsmall]
  exact eq_comm

theorem not_sends_create {cmd : CreateCmd} (hd : cmd.data.InBounds) :
    ¬ t.Sends isIpv4 (.command h (.create cmd)) := by
  obtain ⟨inodeNo, mode, ⟨dataLen, dataBuf⟩, pe⟩ := cmd
  rintro ⟨m, hsend, hrecv, -⟩
  obtain ⟨l, hbuf, -⟩ := hd
  simp only [Body.send, CommandFields.send, bind_eq_ok] at hsend
  obtain ⟨buf, _, pe', _, hm⟩ := hsend
  cases hm
  simp only [Proto.Payload.recvBody, Proto.Payload.commandField, deref, ok_bind,
    Proto.CreateCmd.recv, bind_eq_ok] at hrecv
  obtain ⟨fields, ⟨t, _, pe'', _, hfields⟩, hbody⟩ := hrecv
  cases hfields
  cases hbody
  cases hbuf

theorem not_sends_remove {cmd : RemoveCmd} {len cap : ℕ} (hp : cmd.path.Holds len cap) :
    ¬ t.Sends isIpv4 (.command h (.remove cmd)) := by
  obtain ⟨pathLen, path⟩ := cmd
  rintro ⟨m, hsend, hrecv, -⟩
  obtain ⟨l, hbuf, -⟩ := hp
  simp only [Body.send, CommandFields.send, bind_eq_ok] at hsend
  obtain ⟨path', _, hm⟩ := hsend
  cases hm
  simp only [Proto.Payload.recvBody, Proto.Payload.commandField, deref, ok_bind,
    Proto.RemoveCmd.recv, bind_eq_ok] at hrecv
  obtain ⟨fields, ⟨t, _, hfields⟩, hbody⟩ := hrecv
  cases hfields
  simp only [pure, Except.pure, Except.ok.injEq, Option.some.injEq, Body.command.injEq,
    CommandFields.remove.injEq, RemoveCmd.mk.injEq] at hbody
  exact absurd (hbody.2.2.trans hbuf) (by simp)

theorem sends_storage_imp {c : StorageCommand} (h : t.Sends isIpv4 (.storage c s)) :
    ∃ m, s.send isIpv4 t.env c = .ok m ∧ m.recv t.ctx isIpv4 t.behind = .ok s := by
  obtain ⟨m, hsend, hrecv, -⟩ := h
  obtain ⟨storage, hstorage, hm⟩ := bind_eq_ok.mp hsend
  cases hm
  simp only [Proto.Payload.recvBody, deref, ok_bind] at hrecv
  obtain ⟨s', hs', hbody⟩ := bind_eq_ok.mp hrecv
  cases hbody
  exact ⟨storage, hstorage, hs'⟩

theorem Storage.RoundTrips.sends {c : StorageCommand} (h : s.RoundTrips mem isIpv4 c)
    (hs : s.InBounds) : t.Sends isIpv4 (.storage c s) := by
  have hsend : s.send isIpv4 t.env c = .ok (s.part t.env isIpv4) := by
    refine Storage.RoundTrips.send_eq ?_ hs
    rwa [t.texts_eq]
  refine ⟨⟨t.call.hdr sizeofPayloadHdr, .storage c, some (s.part t.env isIpv4), none, none⟩,
    ?_, ?_, ?_⟩
  · simp only [Body.send, hsend, ok_bind]
    rfl
  · simp only [Proto.Payload.recvBody, deref, ok_bind, h.recv_eq hs]
    rfl
  · refine packedSize_le_sizeofPayload t.jobId_lt rfl ?_
    have hpart : (s.part t.env isIpv4).packedSize ≤ 200 := Storage.part_packedSize_le hs h.path_le
    rw [Proto.contentsSize_storage]
    exact (fieldSize_delimited_le (hpart.trans (by decide))).trans (by omega)

theorem sends_read {cmd : ReadCmd} (hh : h.InBounds) :
    t.Sends isIpv4 (.command h (.read cmd)) ↔
      (∃ f, h.sendExtentHandle t.env = .ok f ∧ f.recvExtentHandle t.behind = .ok h) ∧
        cmd.pe.RoundTrips ∧ 41 + decimals h.nameLen.toNat + h.name.bytes.length < 128 := by
  obtain ⟨inodeNo, offset, count, readEcode, pe⟩ := cmd
  have hfits : Fits sfsDebug sfsDebug ("sstack_send_payload() - name len:  name \n".length +
      decimals h.nameLen.toNat + h.name.bytes.length) ↔
      41 + decimals h.nameLen.toNat + h.name.bytes.length < 128 := by
    unfold Fits
    rw [forall_prop_of_true le_rfl]
    rfl
  rw [← PolicyEntry.send_recv_iff]
  unfold Trip.Sends
  simp only [Body.send, CommandFields.send]
  constructor
  · rintro ⟨m, hsend, hrecv, -⟩
    obtain ⟨f, hf, hsend⟩ := bind_eq_ok.mp hsend
    obtain ⟨pe', hpe', hsend⟩ := bind_eq_ok.mp hsend
    obtain ⟨hpe, rfl⟩ := PolicyEntry.send_eq_ok.mp hpe'
    obtain ⟨hlog, hm⟩ := require_bind_eq_ok.mp hsend
    cases hm
    simp only [Proto.Payload.recvBody, Proto.Payload.commandField, deref, ok_bind,
      Proto.ReadCmd.recv, bind_eq_ok] at hrecv
    obtain ⟨fields, ⟨pe'', hpe'', hfields⟩, h', hh', hbody⟩ := hrecv
    cases hfields
    cases hbody
    exact ⟨⟨f, hf, hh'⟩, ⟨hpe, hpe''⟩, hfits.mp hlog⟩
  · rintro ⟨⟨f, hf, hhandle⟩, ⟨hpe, hpe'⟩, hlog⟩
    refine ⟨_, by rw [hf, ok_bind, hpe, ok_bind, require_bind_of (hfits.mpr hlog)]; rfl, ?_, ?_⟩
    · simp only [Proto.Payload.recvBody, Proto.Payload.commandField, deref, ok_bind,
        Proto.ReadCmd.recv, hpe', hhandle]
      rfl
    · refine packedSize_le_sizeofPayload t.jobId_lt rfl ?_
      have hname := fieldSize_delimited_le
        ((FileHandle.part_packedSize_le hh hf).trans (by decide))
      have hname' := FileHandle.part_packedSize_le hh hf
      have hcmd := Proto.ReadCmd.packedSize_le ⟨inodeNo, offset, count, readEcode, pe.fields⟩
      have hcmd' := fieldSize_delimited_le (hcmd.trans (by decide))
      have hpart : Proto.CommandStruct.packedSize { commandInit with
          extentHandle := some f
          readCmd := some ⟨inodeNo, offset, count, readEcode, pe.fields⟩ } ≤ 4310 := by
        simp only [Proto.CommandStruct.packedSize, commandInit, optionalSize_none,
          optionalSize_some]
        omega
      rw [Proto.contentsSize_command]
      exact (fieldSize_delimited_le (hpart.trans (by decide))).trans (by omega)

theorem not_sends_of_ensures
    (h : Ensures (body.send t.env t.call.hdr isIpv4) fun p => p = none ∨ p = some .incomplete) :
    ¬ t.Sends isIpv4 body := by
  rintro ⟨m, hsend, -⟩
  rcases h _ hsend with hp | hp
  · cases hp
  · cases hp

end Commands

section Headers
variable {env : SendEnv} {hdr : UInt32 → Proto.PayloadHdr}

def Packet.HasHdr (hdr : UInt32 → Proto.PayloadHdr) : Option Packet → Prop
  | some (.message m) => ∃ len, m.hdr = hdr len
  | _ => True

theorem CommandFields.ensures_hdr {h : FileHandle} (fields : CommandFields) :
    Ensures (fields.send env hdr h) (Packet.HasHdr hdr) := by
  cases fields with
  | bare c => exact ensures_pure trivial
  | setattr attr => exact ensures_error _
  | lookup dir what => exact ensures_bind fun _ => ensures_bind fun _ => ensures_pure trivial
  | access mode => exact ensures_pure ⟨_, rfl⟩
  | read cmd =>
    exact ensures_bind fun _ => ensures_bind fun _ => ensures_bind fun _ => ensures_pure ⟨_, rfl⟩
  | write cmd =>
    exact ensures_bind fun _ => ensures_bind fun _ => ensures_bind fun _ => ensures_pure ⟨_, rfl⟩
  | create cmd => exact ensures_bind fun _ => ensures_bind fun _ => ensures_pure ⟨_, rfl⟩
  | mkdir mode => exact ensures_pure ⟨_, rfl⟩
  | symlink newPath => exact ensures_bind fun _ => ensures_pure trivial
  | remove cmd => exact ensures_bind fun _ => ensures_pure ⟨_, rfl⟩
  | rmdir cmd => exact ensures_pure trivial
  | rename newPath => exact ensures_bind fun _ => ensures_pure trivial
  | commit cmd => exact ensures_pure ⟨_, rfl⟩
  | esureCode cmd => exact ensures_pure trivial

theorem ResponseFields.ensures_hdr (commandOk : Int32) (handle : UInt64)
    (fields : ResponseFields) :
    Ensures (fields.send env hdr commandOk handle) (Packet.HasHdr hdr) := by
  cases fields with
  | bare r => exact ensures_pure ⟨_, rfl⟩
  | getattr stbuf => exact ensures_error _
  | lookup resp => exact ensures_bind fun _ => ensures_pure ⟨_, rfl⟩
  | access mode => exact ensures_pure ⟨_, rfl⟩
  | readlink realFile => exact ensures_bind fun _ => ensures_bind fun _ => ensures_pure trivial
  | read resp => exact ensures_bind fun _ => ensures_pure ⟨_, rfl⟩
  | write resp | create resp => exact ensures_pure ⟨_, rfl⟩

theorem Body.ensures_hdr {isIpv4 : Bool} (body : Body) :
    Ensures (body.send env hdr isIpv4) (Packet.HasHdr hdr) := by
  cases body with
  | storage c s => exact ensures_bind fun _ => ensures_pure ⟨_, rfl⟩
  | command h fields => exact fields.ensures_hdr
  | response commandOk handle fields => exact fields.ensures_hdr commandOk handle

end Headers

section Responses
variable {mem : TextMalloc} {t : Trip mem} {isIpv4 : Bool} {commandOk : Int32} {handle : UInt64}

theorem recvBody_default_ne {len : UInt32} {response : Proto.ResponseStruct} :
    Proto.Payload.recvBody t.ctx isIpv4 t.behind
      ⟨t.call.hdr len, t.env.defaultCommand, none, none, some response⟩ ≠ .ok (some body) := by
  rcases t.env.default_cases with hc | hc
  · simp [Proto.Payload.recvBody, hc, pure, Except.pure]
  · simp [Proto.Payload.recvBody, hc, deref]

theorem not_sends_default {fields : ResponseFields}
    (h : Ensures (fields.send t.env t.call.hdr commandOk handle) fun p =>
      ∃ len response, p = some (responsePacket t.call.hdr len t.env.defaultCommand response)) :
    ¬ t.Sends isIpv4 (.response commandOk handle fields) := by
  rintro ⟨m, hsend, hrecv, -⟩
  obtain ⟨len, response, hp⟩ := h _ hsend
  cases hp
  exact recvBody_default_ne hrecv

theorem sends_readRsp {resp : ReadResp} (hd : resp.data.InBounds) :
    t.Sends isIpv4 (.response commandOk handle (.read resp)) ↔ handle = 0 ∧
      Proto.Payload.packedSize ⟨t.call.hdr sizeofPayloadHdr, .readRsp, none, none,
        some (resp.part commandOk)⟩ ≤ sizeofPayload := by
  obtain ⟨count, eof, ⟨dataLen, dataBuf⟩⟩ := resp
  obtain ⟨l, hbuf, hlen, hle, hdata⟩ := Data.send_eq hd
  dsimp only at hbuf hlen hdata
  subst hbuf
  unfold Trip.Sends
  simp only [Body.send, ResponseFields.send, hdata, ok_bind, responsePacket, pure, Except.pure,
    Except.ok.injEq, Option.some.injEq, Packet.message.injEq, exists_eq_left',
    Proto.Payload.recvBody, Proto.Payload.responseField, deref, Proto.ReadResp.recv,
    memcpy_self hle, Proto.ResponseStruct.recv, responseInit, Body.response.injEq,
    Int32.toInt32_toUInt32, and_true, true_and]
  exact and_congr_left fun _ => eq_comm

theorem response_packedSize_le {len : UInt32} {c : Command} {response : Proto.ResponseStruct}
    (h : response.packedSize ≤ 12450) :
    Proto.Payload.packedSize ⟨t.call.hdr len, c, none, none, some response⟩ ≤ sizeofPayload := by
  refine packedSize_le_sizeofPayload t.jobId_lt rfl ?_
  rw [Proto.contentsSize_response]
  exact (fieldSize_delimited_le (h.trans (by decide))).trans (by omega)

theorem sends_writeRsp {resp : WriteResp} :
    t.Sends isIpv4 (.response commandOk handle (.write resp)) ↔
      handle = 0 ∧ resp.fileCreateOk = commandOk.toUInt32 := by
  obtain ⟨fileCreateOk, fileWc⟩ := resp
  have hsize : Proto.Payload.packedSize ⟨t.call.hdr sizeofPayloadHdr, .writeRsp, none, none,
      some { responseInit with writeResp := some ⟨commandOk.toUInt32, fileWc⟩ }⟩ ≤
        sizeofPayload := by
    refine response_packedSize_le ?_
    have hok := varintSize_uint32 commandOk.toUInt32
    have hwc := varintSize_uint32 fileWc
    have hpart : Proto.writeRespSize ⟨commandOk.toUInt32, fileWc⟩ ≤ 12 := by
      simp only [Proto.writeRespSize, fieldSize]
      omega
    have hfield := fieldSize_delimited_le (hpart.trans (by decide))
    have hzero : fieldSize (varintSize 0) = 2 := by decide
    simp only [Proto.ResponseStruct.packedSize, responseInit, optionalSize_none,
      optionalSize_some, UInt32.toNat_zero, UInt64.toNat_zero, hzero]
    omega
  unfold Trip.Sends
  simp only [Body.send, ResponseFields.send, responsePacket, pure, Except.pure, Except.ok.injEq,
    Option.some.injEq, Packet.message.injEq, exists_eq_left', Proto.Payload.recvBody,
    Proto.Payload.responseField, deref, ok_bind, responseInit, Body.response.injEq,
    Int32.toInt32_toUInt32, ResponseFields.write.injEq, WriteResp.mk.injEq, and_true, true_and]
  simp only [responseInit] at hsize
  simp only [hsize, and_true]
  exact and_congr eq_comm eq_comm

theorem sends_bareRsp (r : BareResponse) :
    t.Sends isIpv4 (.response commandOk handle (.bare r)) := by
  refine ⟨_, rfl, ?_, response_packedSize_le ?_⟩
  · simp only [Proto.Payload.recvBody, deref, ok_bind, Proto.ResponseStruct.recv,
      Int32.toInt32_toUInt32]
    rfl
  · have hok := varintSize_uint32 commandOk.toUInt32
    have hhandle := varintSize_uint64 handle
    simp only [Proto.ResponseStruct.packedSize, responseInit, optionalSize_none, fieldSize]
    omega

end Responses

section Delivery
variable {mem : TextMalloc} {isIpv4 : Bool}

theorem modeSize_le (mode : UInt32) : fieldSize (delimited (Proto.modeSize mode)) ≤ 9 := by
  have hmode := varintSize_uint32 mode
  have hsize : Proto.modeSize mode ≤ 6 := by
    unfold Proto.modeSize fieldSize
    omega
  exact (fieldSize_delimited_le (hsize.trans (by decide))).trans (by omega)

theorem commitSize_le (cmd : CommitCmd) : fieldSize (delimited (Proto.commitSize cmd)) ≤ 25 := by
  have hoffset := varintSize_uint64 cmd.offset
  have hcount := varintSize_uint64 cmd.count
  have hsize : Proto.commitSize cmd ≤ 22 := by
    unfold Proto.commitSize fieldSize
    omega
  exact (fieldSize_delimited_le (hsize.trans (by decide))).trans (by omega)

theorem CommandFields.forall_sends_iff {fields : CommandFields} {h : FileHandle}
    (hh : h.InBounds) (hb : fields.InBounds) :
    (∀ t : Trip mem, t.Sends isIpv4 (.command h fields)) ↔ fields.RoundTrips h := by
  have hno : (∀ t : Trip mem, ¬ t.Sends isIpv4 (.command h fields)) →
      ((∀ t : Trip mem, t.Sends isIpv4 (.command h fields)) ↔ False) := fun hn =>
    iff_of_false (fun hs => hn (Classical.arbitrary _) (hs _)) id
  cases fields with
  | access mode | mkdir mode =>
    refine (forall_congr' fun t => sends_plain rfl rfl ?_).trans (forall_const _)
    have hmode := modeSize_le mode
    simp only [Proto.CommandStruct.packedSize, commandInit, optionalSize_none, optionalSize_some]
    omega
  | commit cmd =>
    refine (forall_congr' fun t => sends_plain rfl rfl ?_).trans (forall_const _)
    have hcommit := commitSize_le cmd
    simp only [Proto.CommandStruct.packedSize, commandInit, optionalSize_none, optionalSize_some]
    omega
  | write cmd =>
    simp only [sends_write hb, forall_and, forall_const, CommandFields.RoundTrips,
      Trip.forall_packedSize_le, Proto.contentsSize_command,
      ← Data.forall_fits_iff_shown mem]
  | read cmd =>
    have hlog : h.Shown → 41 + decimals h.nameLen.toNat + h.name.bytes.length < 128 := by
      have hdecimals : decimals h.nameLen.toNat ≤ 4 :=
        decimals_le (by decide) (hh.1.trans_lt (by decide))
      rintro (⟨-, hnil⟩ | ⟨-, hlt⟩)
      · simp only [hnil, List.length_nil]
        omega
      · omega
    simp only [sends_read hh, forall_and, forall_const, FileHandle.forall_exists_send_recv hh,
      CommandFields.RoundTrips, and_assoc]
    exact and_congr_right fun hshown => and_congr_right fun _ => and_iff_left (hlog hshown)
  | create cmd => exact hno fun _ => not_sends_create hb
  | remove cmd => exact hno fun _ => not_sends_remove hb
  | setattr attr => exact hno fun _ => not_sends_of_ensures (ensures_error _)
  | bare c | rmdir cmd | esureCode cmd =>
    exact hno fun _ => not_sends_of_ensures (ensures_pure (.inl rfl))
  | lookup dir what =>
    exact hno fun _ => not_sends_of_ensures
      (ensures_bind fun _ => ensures_bind fun _ => ensures_pure (.inr rfl))
  | symlink newPath | rename newPath =>
    exact hno fun _ => not_sends_of_ensures (ensures_bind fun _ => ensures_pure (.inr rfl))

theorem ResponseFields.forall_sends_iff {fields : ResponseFields} {commandOk : Int32}
    {handle : UInt64} (hb : fields.InBounds) :
    (∀ t : Trip mem, t.Sends isIpv4 (.response commandOk handle fields)) ↔
      fields.RoundTrips commandOk handle := by
  have hno : (∀ t : Trip mem, ¬ t.Sends isIpv4 (.response commandOk handle fields)) →
      ((∀ t : Trip mem, t.Sends isIpv4 (.response commandOk handle fields)) ↔ False) := fun hn =>
    iff_of_false (fun hs => hn (Classical.arbitrary _) (hs _)) id
  cases fields with
  | bare r => exact iff_of_true (fun _ => sends_bareRsp r) trivial
  | read resp =>
    simp only [sends_readRsp hb, forall_and, forall_const, Trip.forall_packedSize_le,
      Proto.contentsSize_response, ResponseFields.RoundTrips]
  | write resp => simp only [sends_writeRsp, forall_const, ResponseFields.RoundTrips]
  | getattr stbuf => exact hno fun _ => not_sends_of_ensures (ensures_error _)
  | readlink realFile =>
    exact hno fun _ => not_sends_of_ensures
      (ensures_bind fun _ => ensures_bind fun _ => ensures_pure (.inr rfl))
  | lookup resp =>
    exact hno fun _ => not_sends_default (ensures_bind fun _ => ensures_pure ⟨_, _, rfl⟩)
  | access mode | create resp => exact hno fun _ => not_sends_default (ensures_pure ⟨_, _, rfl⟩)

theorem Storage.shown_of_reported {env : SendEnv} {c : StorageCommand} (hctx : sfsErr ≤ env.ctx)
    (h : Body.Reported env (.storage c s)) : s.shown c ≤ 38 := by
  have hfailed := h.1 (-1) ⟨133, by decide⟩
  unfold Body.report at hfailed
  dsimp only at hfailed
  rw [if_neg (by decide)] at hfailed
  have hroom : 86 + s.shown c + 3 < 128 := require_eq_ok.mp hfailed hctx
  omega

theorem Storage.RoundTrips.reported {env : SendEnv} {c : StorageCommand}
    (h : s.RoundTrips mem isIpv4 c) : Body.Reported env (.storage c s) := by
  have hshown := h.shown
  refine ⟨fun txRet errno => ?_, ?_⟩
  · unfold Body.report
    dsimp only
    split_ifs with hret
    · refine require_eq_ok.mpr fun _ => ?_
      change 82 + s.shown c < 128
      omega
    · refine require_eq_ok.mpr fun _ => ?_
      have hlt : (sendRet txRet errno).natAbs < 10 ^ 3 := by
        have herrno : errno.val < 134 := errno.isLt
        unfold sendRet
        split_ifs
        · omega
        · decide
      have hdecimals := decimals_le (by decide) hlt
      change 86 + s.shown c + decimals (sendRet txRet errno).natAbs < 128
      omega
  · refine require_eq_ok.mpr fun _ => ?_
    unfold Storage.shown at hshown
    change 76 + (c.stringify.length + s.path.bytes.length) < 128
    omega

theorem Body.forall_sends_iff (hb : body.InBounds) :
    (∀ t : Trip mem, t.Sends isIpv4 body ∧ body.Reported t.env) ↔ body.RoundTrips mem isIpv4 := by
  cases body with
  | storage c s =>
    constructor
    · intro h
      let t : Trip mem := .wide mem (fun _ => 0) (fun _ => 0) sfsDebug
      have hctx : sfsErr ≤ sfsDebug := by decide
      obtain ⟨m, hsend, hrecv⟩ := sends_storage_imp (h t).1
      obtain ⟨haddress, hipv4, hpath, hmount⟩ := Storage.send_eq_ok_imp hsend
      obtain ⟨hchunks, hprotocol⟩ := Proto.Storage.recv_eq_ok_imp hrecv
      exact ⟨hipv4, hchunks, hprotocol, Storage.shown_of_reported hctx (h t).2, haddress,
        hpath, hmount⟩
    · intro h t
      exact ⟨h.sends hb, h.reported⟩
  | command h fields =>
    have hreported : ∀ env, Body.Reported env (.command h fields) := fun _ =>
      ⟨fun _ _ => rfl, rfl⟩
    simp only [hreported, and_true]
    exact fields.forall_sends_iff hb.1 hb.2
  | response commandOk handle fields =>
    have hreported : ∀ env, Body.Reported env (.response commandOk handle fields) := fun _ =>
      ⟨fun _ _ => rfl, rfl⟩
    simp only [hreported, and_true]
    exact fields.forall_sends_iff hb

theorem decode_message_eq_ok {ctx : ℕ} {behind : ℕ → UInt8} {m : Proto.Payload} {p : Payload} :
    decode ⟨true, true, true⟩ ctx isIpv4 behind (some m) = .ok (some p) ↔
      m.recvBody ctx isIpv4 behind = .ok (some p.body) ∧ p.hdr = m.hdr.recv := by
  have hcreate : createPayload ⟨true, true, true⟩ m.command = .ok true := by
    simp [createPayload]
  simp only [decode, deref, ok_bind, hcreate, if_true, bind_eq_ok, pure, Except.pure,
    Except.ok.injEq, Option.map_eq_some_iff]
  constructor
  · rintro ⟨_, hrecv, b, rfl, rfl⟩
    exact ⟨hrecv, rfl⟩
  · rintro ⟨hrecv, hhdr⟩
    exact ⟨_, hrecv, p.body, rfl, by rw [← hhdr]⟩

section Receiver
variable {unpack : List UInt8 → Option Proto.Payload} {ctx : ℕ} {behind : ℕ → UInt8}
  {peer : UInt64} {bytes : List UInt8}

theorem sstackRecvPayload_received (hzero : peer ≠ 0) (hpeer : peer ≠ -1) :
    sstackRecvPayload unpack ⟨true, true, true⟩ ctx isIpv4 behind peer (received bytes) =
      decode ⟨true, true, true⟩ ctx isIpv4 behind (unpack (bytes.take sizeofPayload)) :=
  sstackRecvPayload_of_ret_eq hpeer hzero rfl rfl

/-- What comes out of the receiver is a message that it can take as a whole. -/
theorem Packet.recvBody_of_received {packet : Packet} (hzero : peer ≠ 0)
    (hpeer : peer ≠ -1) (h : ∀ bytes unpack, packet.Packed bytes unpack →
      ∃ p, sstackRecvPayload unpack ⟨true, true, true⟩ ctx isIpv4 behind peer (received bytes) =
        .ok (some p) ∧ p.body = body) :
    ∃ m, packet = .message m ∧ m.recvBody ctx isIpv4 behind = .ok (some body) ∧
      m.packedSize ≤ sizeofPayload := by
  cases packet with
  | incomplete =>
    have hpacked : Packet.incomplete.Packed [] fun _ => none := by
      refine ⟨rfl, fun m hm => ?_⟩
      cases hm
    obtain ⟨p, hp, -⟩ := h _ _ hpacked
    rw [sstackRecvPayload_received hzero hpeer] at hp
    cases hp
  | message m =>
    obtain ⟨bytes, hlen⟩ : ∃ bytes : List UInt8, bytes.length = m.packedSize :=
      ⟨List.replicate m.packedSize 0, List.length_replicate⟩
    have hpacked : (Packet.message m).Packed bytes fun l => if l = bytes then some m else none := by
      refine ⟨if_pos rfl, fun m' hm => ?_⟩
      cases hm
      exact hlen
    obtain ⟨p, hp, hbody⟩ := h _ _ hpacked
    rw [sstackRecvPayload_received hzero hpeer] at hp
    by_cases hsize : m.packedSize ≤ sizeofPayload
    · rw [if_pos (List.take_of_length_le (hlen.trans_le hsize))] at hp
      exact ⟨m, rfl, hbody ▸ (decode_message_eq_ok.mp hp).1, hsize⟩
    · have hcut : bytes.take sizeofPayload ≠ bytes := by
        intro heq
        have := congrArg List.length heq
        rw [List.length_take, hlen] at this
        omega
      rw [if_neg hcut] at hp
      cases hp

theorem Packet.Packed.recvPayload_eq {m : Proto.Payload} (hzero : peer ≠ 0)
    (hpeer : peer ≠ -1) (hpacked : (Packet.message m).Packed bytes unpack)
    (hrecv : m.recvBody ctx isIpv4 behind = .ok (some body))
    (hsize : m.packedSize ≤ sizeofPayload) :
    sstackRecvPayload unpack ⟨true, true, true⟩ ctx isIpv4 behind peer (received bytes) =
      .ok (some ⟨m.hdr.recv, body⟩) := by
  rw [sstackRecvPayload_received hzero hpeer,
    List.take_of_length_le ((hpacked.length_eq m rfl).trans_le hsize), hpacked.unpack_eq]
  exact decode_message_eq_ok.mpr ⟨hrecv, rfl⟩

end Receiver

theorem sstackSendPayload_of_send {env : SendEnv} {call : SendCall} {p : Packet}
    (hhandle : call.handle ≠ -1) (hjob : call.jobId < maxOutstandingJobs)
    (hsend : body.send env call.hdr isIpv4 = .ok (some p)) :
    sstackSendPayload env isIpv4 call body =
      if call.malloc then
        body.report env call.sendRet >>= fun _ =>
          .ok ⟨-call.sendRet, if call.handle = 0 then [] else [p]⟩
      else body.reportNomem env >>= fun _ => .ok ⟨-enomem, []⟩ := by
  unfold sstackSendPayload
  rw [if_neg (not_or.mpr ⟨hhandle, UInt64.not_le.mpr hjob⟩), hsend, ok_bind]
  rfl

theorem sends_of_delivered (h : Delivered mem isIpv4 body) (t : Trip mem) :
    t.Sends isIpv4 body := by
  have hhandle : (1 : UInt64) ≠ -1 := by decide
  obtain ⟨sent, hsent, hdelivered⟩ := h t.env
    { t.call with handle := 1, malloc := true, txRet := 0 } t.behind t.ctx 1 t.texts_eq
    (by decide) hhandle
  unfold sstackSendPayload at hsent
  rw [if_neg (not_or.mpr ⟨hhandle, UInt64.not_le.mpr t.jobId_lt⟩)] at hsent
  obtain ⟨packet, hpacket, hres⟩ := bind_eq_ok.mp hsent
  cases packet with
  | none =>
    cases hres
    obtain ⟨p, hp, -⟩ := hdelivered rfl
    cases hp
  | some packet =>
    obtain ⟨_, -, hres⟩ := bind_eq_ok.mp hres
    cases hres
    obtain ⟨p, hp, hreceived⟩ := hdelivered rfl
    cases hp
    obtain ⟨m, rfl, hrecv, hsize⟩ := packet.recvBody_of_received (by decide) hhandle
      fun bytes unpack hpacked =>
        let ⟨p, hp, hbody, _⟩ := hreceived bytes unpack hpacked
        ⟨p, hp, hbody⟩
    exact ⟨m, hpacket, hrecv, hsize⟩

theorem reported_of_delivered (h : Delivered mem isIpv4 body) (t : Trip mem) :
    body.Reported t.env := by
  have hhandle : (1 : UInt64) ≠ -1 := by decide
  obtain ⟨m, hsend, -⟩ := sends_of_delivered h t
  refine ⟨fun txRet errno => ?_, ?_⟩
  · let call : SendCall :=
      { t.call with handle := 1, malloc := true, txRet := txRet, errno := errno }
    obtain ⟨sent, hsent, -⟩ := h t.env call t.behind t.ctx 1 t.texts_eq (by decide) hhandle
    have hcall : sstackSendPayload t.env isIpv4 call body = _ :=
      sstackSendPayload_of_send hhandle t.jobId_lt hsend
    rw [hcall, if_pos rfl] at hsent
    obtain ⟨_, hreport, -⟩ := bind_eq_ok.mp hsent
    exact hreport
  · let call : SendCall := { t.call with handle := 1, malloc := false }
    obtain ⟨sent, hsent, -⟩ := h t.env call t.behind t.ctx 1 t.texts_eq (by decide) hhandle
    have hcall : sstackSendPayload t.env isIpv4 call body = _ :=
      sstackSendPayload_of_send hhandle t.jobId_lt hsend
    rw [hcall, if_neg Bool.false_ne_true] at hsent
    obtain ⟨_, hreport, -⟩ := bind_eq_ok.mp hsent
    exact hreport

theorem SendCall.exists_sendRet_eq (call : SendCall) :
    ∃ txRet, ∃ errno : Fin numErrno, call.sendRet = Serdes.sendRet txRet errno := by
  unfold SendCall.sendRet
  split_ifs
  · exact ⟨-1, ⟨22, by decide⟩, rfl⟩
  · exact ⟨_, _, rfl⟩

/-- Whatever else a call brings, the payload has to survive the way through the message. -/
theorem delivered_iff_sends : Delivered mem isIpv4 body ↔
    ∀ t : Trip mem, t.Sends isIpv4 body ∧ body.Reported t.env := by
  constructor
  · intro h t
    exact ⟨sends_of_delivered h t, reported_of_delivered h t⟩
  · intro h env call behind ctx peer htexts hzero hpeer
    by_cases hbad : call.handle = -1 ∨ maxOutstandingJobs ≤ call.jobId
    · unfold sstackSendPayload
      rw [if_pos hbad]
      exact ⟨_, rfl, fun h => by cases h⟩
    · have hjob : call.jobId < maxOutstandingJobs := UInt64.not_le.mp (not_or.mp hbad).2
      obtain ⟨⟨m, hm, hrecv, hsize⟩, hreported, hnomem⟩ := h ⟨env, call, behind, ctx, htexts, hjob⟩
      obtain ⟨len, hhdr⟩ := body.ensures_hdr _ hm
      obtain ⟨txRet, errno, hret⟩ := call.exists_sendRet_eq
      have hreport : body.report env call.sendRet = .ok () := by
        rw [hret]
        exact hreported txRet errno
      rw [sstackSendPayload_of_send (not_or.mp hbad).1 hjob hm, hreport]
      by_cases hmalloc : call.malloc = true
      · rw [if_pos hmalloc, ok_bind]
        refine ⟨_, rfl, fun hret => ⟨.message m, ?_, fun bytes unpack hpacked =>
          ⟨_, hpacked.recvPayload_eq hzero hpeer hrecv hsize, rfl, ?_⟩⟩⟩
        · have hhandle : call.handle ≠ 0 := by
            intro hzero
            simp [SendCall.sendRet, hzero, einval] at hret
          rw [if_neg hhandle]
        · rw [hhdr]
          exact ⟨hdr_recv_jobId hjob len, rfl, rfl⟩
      · rw [if_neg hmalloc, hnomem, ok_bind]
        exact ⟨_, rfl, fun h => by cases h⟩

/-- The payloads of which nothing is lost: most commands without an extent handle, the plain
responses, and few values of the others. -/
theorem delivered_iff (hb : body.InBounds) :
    Delivered mem isIpv4 body ↔ body.RoundTrips mem isIpv4 :=
  delivered_iff_sends.trans (Body.forall_sends_iff hb)

def shortWrite : WriteCmd := ⟨7, 0, 2, ⟨2, .bytes [65, 0]⟩, ⟨⟨1, 0, 0, 0, 0, 0⟩, 0, 0, 0, 0⟩⟩

theorem delivered_iff_write : Body.InBounds (.command .empty (.write shortWrite)) ∧
    Delivered ⟨true, true, true⟩ true (.command .empty (.write shortWrite)) := by
  have hb : Body.InBounds (.command .empty (.write shortWrite)) :=
    ⟨⟨Nat.zero_le _, by decide, by decide⟩, [65, 0], rfl, rfl, by decide⟩
  have hshown : shortWrite.data.Shown := by
    change (0 : UInt8) ∈ [65, 0].take (81 - decimals 2)
    decide
  exact ⟨hb, (delivered_iff hb).mpr ⟨rfl, ⟨rfl, rfl⟩, hshown, by decide⟩⟩

theorem length_le_of_packedSize_le {hdr : Proto.PayloadHdr} {commandOk : Int32} {resp : ReadResp}
    (h : Proto.Payload.packedSize ⟨hdr, .readRsp, none, none, some (resp.part commandOk)⟩ ≤
      sizeofPayload) : resp.data.bytes.length ≤ sizeofPayload := by
  simp only [Proto.Payload.packedSize, Proto.contentsSize_response, ReadResp.part,
    Proto.ResponseStruct.packedSize, Proto.ReadResp.packedSize, Proto.Data.packedSize, responseInit,
    optionalSize_none, optionalSize_some, fieldSize, delimited] at h
  omega

theorem unknown_cases : Command.bare (.unknown 0) = .bare (.unknown 0) ∨
    Command.bare (.unknown 0) = .storage .add :=
  .inl rfl

theorem numErrno_pos : 0 < numErrno := by decide

def zeroEnv : SendEnv :=
  ⟨fun _ => 0, [], sfsDebug, ⟨true, true, true⟩, .bare (.unknown 0), unknown_cases⟩

def zeroCall : SendCall := ⟨1, 0, 0, 0, 0, true, 0, ⟨0, numErrno_pos⟩⟩

def longRead : ReadResp := ⟨65536, 1, ⟨65536, .bytes (List.replicate 65536 0)⟩⟩

/-- The removal of a directory is reported as sent, and nothing is sent. The response to a read
loses the handle, and with 64 KB of data it does not arrive. -/
theorem delivered_loses :
    sstackSendPayload zeroEnv true zeroCall (.command .empty (.rmdir ⟨2, .bytes [47, 97]⟩)) =
      .ok ⟨0, []⟩ ∧
    (∀ mem, ¬ Delivered mem true (.command .empty (.rmdir ⟨2, .bytes [47, 97]⟩))) ∧
    (∀ mem, ¬ Delivered mem true (.response 100 7 (.read ⟨0, 1, ⟨0, .bytes []⟩⟩))) ∧
    ∀ mem, ¬ Delivered mem true (.response 100 0 (.read longRead)) := by
  refine ⟨rfl, fun mem h => ?_, fun mem h => ?_, fun mem h => ?_⟩
  · obtain ⟨m, hsend, -⟩ := sends_of_delivered h (Classical.arbitrary _)
    cases hsend
  · have hdata : Data.InBounds ⟨0, .bytes []⟩ := ⟨[], rfl, rfl, Nat.zero_le _⟩
    have hsends := (sends_readRsp hdata).mp (sends_of_delivered h (Classical.arbitrary _))
    exact absurd hsends.1 (by decide)
  · have hdata : longRead.data.InBounds := ⟨_, rfl, List.length_replicate, le_rfl⟩
    have hsends := (sends_readRsp hdata).mp (sends_of_delivered h (Classical.arbitrary _))
    have hlen : longRead.data.bytes.length = 65536 := List.length_replicate
    have hle := length_le_of_packedSize_le hsends.2
    rw [hlen] at hle
    exact absurd hle (by decide)

end Delivery

end SeamlessStack.Serdes

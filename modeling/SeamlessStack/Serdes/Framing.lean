import SeamlessStack.Lib.Runs
import SeamlessStack.Serdes.Safety
import SeamlessStack.Serdes.Send

/-! One direction of a TCP connection: `tcp_tx` is one `send`, `tcp_rx` is one `recv`, whose bytes
are taken for one message. Nothing in the stream says where a message ends. -/
namespace SeamlessStack.Serdes
open Lib

/-- A way to write messages as bytes. No message is empty, since its header is required. -/
structure Codec (μ : Type) where
  pack : μ → List UInt8
  unpack : List UInt8 → Option μ
  unpack_pack : ∀ m, unpack (pack m) = some m
  unpack_nil : unpack [] = none

/-- What the sender was told is sent, the bytes on their way, and what `unpack` gave. -/
structure Connection (μ : Type) where
  sent : List μ
  stream : List UInt8
  received : List (Option μ)
  deriving DecidableEq, Repr

/-- A `send` for a message, with its result, or a `recv` that gives `n` bytes. -/
inductive ConnectionEvent (μ : Type)
  | send (m : μ) (ret : ℤ) (errno : ℕ)
  | recv (n : ℕ)
  deriving DecidableEq, Repr

variable {μ : Type}

/-- The network may take any part of a message, and give any part of the stream that fits. The
receiver does not survive a call in which `unpack` gave `NULL`. -/
def connectionStep (C : Codec μ) (s : Connection μ) : ConnectionEvent μ → Option (Connection μ)
  | .send m ret errno =>
    if -1 ≤ ret ∧ ret ≤ (C.pack m).length ∧ (ret = -1 → 0 < errno) then
      some { s with
        sent := if sendRet ret errno = 0 then s.sent ++ [m] else s.sent
        stream := s.stream ++ (C.pack m).take ret.toNat }
    else none
  | .recv n =>
    if 0 < n ∧ n ≤ s.stream.length ∧ n ≤ sizeofPayload ∧ s.received.all Option.isSome then
      some { s with
        stream := s.stream.drop n
        received := s.received ++ [C.unpack (s.stream.take n)] }
    else none

def connectionSystem (C : Codec μ) : System (Connection μ) (ConnectionEvent μ) where
  init s := s = ⟨[], [], []⟩
  step := connectionStep C

/-- Each `send` takes its whole message or fails, no message is larger than the receiver's buffer,
and each `recv` gives just the next message. -/
def Whole (C : Codec μ) (s : Connection μ) : ConnectionEvent μ → Prop
  | .send m ret _ =>
    ret = -1 ∨ ret = (C.pack m).length ∧ (C.pack m).length ≤ sizeofPayload
  | .recv n => (s.sent[s.received.length]?).map (fun m => (C.pack m).length) = some n

instance (C : Codec μ) (s : Connection μ) : (e : ConnectionEvent μ) → Decidable (Whole C s e)
  | .send _ _ _ => inferInstanceAs (Decidable (_ ∨ _))
  | .recv _ => inferInstanceAs (Decidable (_ = _))

/-- The stream holds the messages that were sent and not yet received, one after the other. -/
structure Framed (C : Codec μ) (s : Connection μ) : Prop where
  received : s.received = (s.sent.take s.received.length).map some
  stream : s.stream = ((s.sent.drop s.received.length).map C.pack).flatten
  fits : ∀ m ∈ s.sent, (C.pack m).length ≤ sizeofPayload

variable {C : Codec μ} {s t : Connection μ}

theorem Codec.pack_ne_nil (C : Codec μ) (m : μ) : C.pack m ≠ [] := by
  intro h
  have hm := C.unpack_pack m
  rw [h, C.unpack_nil] at hm
  cases hm

theorem framed_init : Framed C ⟨[], [], []⟩ := ⟨rfl, rfl, by simp⟩

theorem Framed.received_length_le (h : Framed C s) : s.received.length ≤ s.sent.length := by
  have := congrArg List.length h.received
  simp only [List.length_map, List.length_take] at this
  omega

theorem Framed.stream_eq (h : Framed C s) {m : μ} (hm : s.sent[s.received.length]? = some m) :
    s.stream = C.pack m ++ ((s.sent.drop (s.received.length + 1)).map C.pack).flatten := by
  obtain ⟨hlt, rfl⟩ := List.getElem?_eq_some_iff.mp hm
  rw [h.stream, List.drop_eq_getElem_cons hlt, List.map_cons, List.flatten_cons]

theorem Framed.append (h : Framed C s) {m : μ} (hfits : (C.pack m).length ≤ sizeofPayload) :
    Framed C { s with sent := s.sent ++ [m], stream := s.stream ++ C.pack m } where
  received := by
    rw [List.take_append_of_le_length h.received_length_le]
    exact h.received
  stream := by
    rw [List.drop_append_of_le_length h.received_length_le, List.map_append, List.flatten_append,
      ← h.stream]
    simp
  fits := by
    intro x hx
    rcases List.mem_append.mp hx with hx | hx
    · exact h.fits x hx
    · rwa [List.mem_singleton.mp hx]

theorem Framed.send (h : Framed C s) {m : μ} {ret : ℤ} {errno : ℕ}
    (hw : Whole C s (.send m ret errno))
    (hstep : connectionStep C s (.send m ret errno) = some t) : Framed C t := by
  simp only [connectionStep] at hstep
  split at hstep
  · rename_i hret
    cases hstep
    rcases hw with rfl | ⟨rfl, hfits⟩
    · -- a failure that the sender is told about
      have hne : sendRet (-1) errno ≠ 0 := by
        have := hret.2.2 rfl
        simp only [sendRet, if_true]
        omega
      rw [if_neg hne]
      simpa using h
    · have heq : sendRet (C.pack m).length errno = 0 := if_neg (by omega)
      rw [if_pos heq, Int.toNat_natCast, List.take_length]
      exact h.append hfits
  · cases hstep

theorem Framed.recv (h : Framed C s) {n : ℕ} (hw : Whole C s (.recv n))
    (hstep : connectionStep C s (.recv n) = some t) : Framed C t := by
  obtain ⟨m, hm, rfl⟩ := Option.map_eq_some_iff.mp hw
  have hstream := h.stream_eq hm
  simp only [connectionStep] at hstep
  split at hstep
  · cases hstep
    have htake : s.stream.take (C.pack m).length = C.pack m := by
      rw [hstream, List.take_left]
    constructor
    · simp only [htake, C.unpack_pack, List.length_append, List.length_singleton]
      rw [List.take_add_one, hm, List.map_append, ← h.received]
      rfl
    · simp only [List.length_append, List.length_singleton]
      rw [hstream, List.drop_left]
    · exact h.fits
  · cases hstep

theorem framed_of_reach (hs : (connectionSystem C).Reach (Whole C) s) : Framed C s := by
  refine hs.invariant ?_ ?_
  · rintro s rfl
    exact framed_init
  · intro s e t _ h hw hstep
    cases e with
    | send m ret errno => exact h.send hw hstep
    | recv n => exact h.recv hw hstep

theorem recvPayload_stream {C : Codec Proto.Payload} {stream : List UInt8} {n ctx : ℕ} {al : Alloc}
    {isIpv4 : Bool} {behind : ℕ → UInt8} {handle : UInt64} (hle : n ≤ stream.length)
    (hsize : n ≤ sizeofPayload) (hhandle : handle ≠ -1) (hzero : handle ≠ 0)
    (htemp : al.temp = true) :
    ∃ rx : Rx, rx.ret = n ∧ rx.buffer = stream.take n ∧
      sstackRecvPayload C.unpack al ctx isIpv4 behind handle rx =
        decode al ctx isIpv4 behind (C.unpack (stream.take n)) := by
  have hlen : (stream.take n).length = n := by
    rw [List.length_take]
    omega
  refine ⟨⟨n, 0, stream.take n, fun _ => by rw [hlen], by rw [hlen]; exact hsize⟩, rfl, rfl, ?_⟩
  exact sstackRecvPayload_of_ret_eq hhandle hzero htemp (congrArg Nat.cast hlen.symm)

/-- In a run of whole messages the calls decode the messages that were sent, in order: all of them
once the stream is empty, and while it is not, the next one can be received. -/
theorem framing_delivers (hs : (connectionSystem C).Reach (Whole C) s) :
    s.received = (s.sent.take s.received.length).map some ∧
      (s.stream = [] → s.received = s.sent.map some) ∧
      (s.stream ≠ [] → ∃ n t, Whole C s (.recv n) ∧
        (connectionSystem C).step s (.recv n) = some t) := by
  have h := framed_of_reach hs
  refine ⟨h.received, fun hnil => ?_, fun hne => ?_⟩
  · -- a message that is still to come would leave bytes in the stream
    have hall : s.sent.length ≤ s.received.length := by
      by_contra hlt
      have hm := List.getElem?_eq_getElem (not_le.mp hlt)
      have hstream := h.stream_eq hm
      rw [hnil] at hstream
      exact C.pack_ne_nil _ (List.append_eq_nil_iff.mp hstream.symm).1
    rw [h.received, List.take_of_length_le hall]
  · have hlt : s.received.length < s.sent.length := by
      by_contra hge
      rw [h.stream, List.drop_eq_nil_of_le (not_lt.mp hge)] at hne
      exact hne rfl
    have hm := List.getElem?_eq_getElem hlt
    have hpos : 0 < (C.pack s.sent[s.received.length]).length :=
      List.length_pos_iff.mpr (C.pack_ne_nil _)
    have hle : (C.pack s.sent[s.received.length]).length ≤ s.stream.length := by
      rw [h.stream_eq hm, List.length_append]
      omega
    have hsome : s.received.all Option.isSome = true := by
      rw [h.received, List.all_eq_true]
      intro x hx
      obtain ⟨m, -, rfl⟩ := List.mem_map.mp hx
      rfl
    refine ⟨(C.pack s.sent[s.received.length]).length, _, ?_,
      if_pos ⟨hpos, hle, h.fits _ (List.getElem_mem hlt), hsome⟩⟩
    rw [Whole, hm]
    rfl

def markedCodec : Codec UInt8 where
  pack b := [1, b]
  unpack
    | [1, b] => some b
    | _ => none
  unpack_pack _ := rfl
  unpack_nil := rfl

theorem framing_delivers_two : ∃ s : Connection UInt8,
    (connectionSystem markedCodec).Reach (Whole markedCodec) s ∧ s.sent = [7, 9] ∧
      s.stream = [] ∧ s.received = s.sent.map some := by
  have hrun : ∃ s, (connectionSystem markedCodec).run (Whole markedCodec) ⟨[], [], []⟩
      [.send 7 2 0, .send 9 2 0, .recv 2, .recv 2] = some s ∧ s.sent = [7, 9] ∧ s.stream = [] :=
    ⟨_, rfl, rfl, rfl⟩
  obtain ⟨s, hs, hsent, hstream⟩ := hrun
  have hreach : (connectionSystem markedCodec).Reach (Whole markedCodec) s :=
    .run (.init rfl) hs
  exact ⟨s, hreach, hsent, hstream, (framing_delivers hreach).2.1 hstream⟩

theorem step_send_whole (m : μ) : connectionStep C s (.send m (C.pack m).length 0) =
    some { s with sent := s.sent ++ [m], stream := s.stream ++ C.pack m } := by
  have hne : ((C.pack m).length : ℤ) ≠ -1 := by omega
  have heq : sendRet (C.pack m).length 0 = 0 := if_neg hne
  simp only [connectionStep, heq, if_true, Int.toNat_natCast, List.take_length]
  exact if_pos ⟨by omega, le_rfl, fun h => absurd h hne⟩

theorem step_recv_all (hne : s.stream ≠ []) (hle : s.stream.length ≤ sizeofPayload)
    (hsome : s.received.all Option.isSome = true) :
    connectionStep C s (.recv s.stream.length) =
      some { s with stream := [], received := s.received ++ [C.unpack s.stream] } := by
  simp only [connectionStep, List.take_length, List.drop_length]
  exact if_pos ⟨List.length_pos_iff.mpr hne, le_rfl, hle, hsome⟩

/-- Two messages that one `recv` gives together are taken for one. And the bytes that a `send` did
not take are lost, while the sender is told that all went well. -/
theorem framing_merges :
    (∀ (μ : Type) (C : Codec μ) (a b : μ), (C.pack a ++ C.pack b).length ≤ sizeofPayload →
      ∃ s, (connectionSystem C).Reach System.AnyStep s ∧ s.sent = [a, b] ∧ s.stream = [] ∧
        s.received ≠ s.sent.map some) ∧
    ∃ s : Connection UInt8, (connectionSystem markedCodec).Reach System.AnyStep s ∧
      s.sent = [7] ∧ s.stream = [] ∧ s.received = [none] := by
  refine ⟨fun μ C a b hsize => ?_, ?_⟩
  · have hne : C.pack a ++ C.pack b ≠ [] := List.append_ne_nil_of_left_ne_nil (C.pack_ne_nil a) _
    have ha : (connectionSystem C).Reach System.AnyStep ⟨[a], C.pack a, []⟩ :=
      .step (e := .send a (C.pack a).length 0) (.init rfl) trivial (step_send_whole a)
    have hb : (connectionSystem C).Reach System.AnyStep ⟨[a, b], C.pack a ++ C.pack b, []⟩ :=
      .step (e := .send b (C.pack b).length 0) ha trivial (step_send_whole b)
    have hboth : (connectionSystem C).Reach System.AnyStep
        ⟨[a, b], [], [C.unpack (C.pack a ++ C.pack b)]⟩ :=
      .step (e := .recv (C.pack a ++ C.pack b).length) hb trivial
        (step_recv_all (s := ⟨[a, b], C.pack a ++ C.pack b, []⟩) hne hsize rfl)
    refine ⟨_, hboth, rfl, rfl, ?_⟩
    intro h
    simpa using congrArg List.length h
  · exact System.exists_reach [.send 7 1 0, .recv 1] rfl ⟨_, rfl, rfl, rfl, rfl⟩

end SeamlessStack.Serdes

import SeamlessStack.Lib.Runs
import SeamlessStack.Sfsd.Respond

/-! The requests that the file system sends to an sfsd, and what comes back. `do_receive_thread`
gives the requests to threads, which answer in any order; `sfs_handle_connection` gives the answers
to threads that call `sfs_process_payload`. A message is put on the connection by one `send`, which
may take a part of it, and read by one `recv`, which gives at most `sizeofPayload` bytes and may
stop inside of a message or go on into the next. -/
namespace SeamlessStack.Exchange

open Lib
open Serdes (Command maxOutstandingJobs sizeofPayload)
open Sfsd.Respond

def maxJobSubmitRetries : ℕ := 10

def requested : Command → Bool
  | .read | .write | .remove | .rmdir | .esureCode | .storage _ => true
  | _ => false

def readable : Command → Bool
  | .bare _ | .rmdir | .esureCode => false
  | _ => true

/-- What `sfs_process_payload` calls. -/
inductive Handler
  | readResponse
  | writeResponse
  | storageResponse
  deriving DecidableEq, Repr

/-- The `switch` of `sfs_process_payload`. -/
def sfsProcessPayload : Command → Option Handler
  | .readRsp => some .readResponse
  | .writeRsp => some .writeResponse
  | .bareRsp .addStorage | .bareRsp .removeStorage | .bareRsp .updateStorage =>
    some .storageResponse
  | _ => none

/-- How `sstack_recv_payload` ends: nothing is read; a null pointer; a fault; the payload. -/
inductive Receipt
  | unread
  | null
  | fault
  | payload
  deriving DecidableEq, Repr

/-- Bytes on a connection: a message as it was packed, or a part of one. -/
structure Piece (α : Type) where
  bytes : ℕ
  message : Option α
  deriving DecidableEq, Repr

def Piece.taken {α : Type} (m : α) (len : ℕ) (ret : ℤ) : Piece α :=
  ⟨ret.toNat, if ret = len then some m else none⟩

def TxRet (len : ℕ) (ret : ℤ) : Prop := 0 < len ∧ -1 ≤ ret ∧ ret ≤ len

instance (len : ℕ) (ret : ℤ) : Decidable (TxRet len ret) := inferInstanceAs (Decidable (_ ∧ _))

/-- A `recv` gives the next message, or `n` other bytes, of which `unpack` makes anything. -/
inductive Recv
  | next
  | bytes (n : ℕ) (unpacked : PayloadHead)
  deriving DecidableEq, Repr

section Stream
variable {α : Type}

def messages (stream : List (Piece α)) : List α := stream.filterMap Piece.message

theorem messages_cons (n : ℕ) (m : α) (stream : List (Piece α)) :
    messages (⟨n, some m⟩ :: stream) = m :: messages stream := rfl

theorem messages_taken (stream : List (Piece α)) (m : α) (len : ℕ) :
    messages (stream ++ [.taken m len len]) = messages stream ++ [m] := by
  simp [messages, Piece.taken]

/-- What is left behind the first `n` bytes. -/
def dropBytes : List (Piece α) → ℕ → List (Piece α)
  | [], _ => []
  | p :: stream, n =>
    if n = 0 then p :: stream
    else if n < p.bytes then ⟨p.bytes - n, none⟩ :: stream
    else dropBytes stream (n - p.bytes)

/-- The messages that begin in the first `n` bytes. -/
def begunIn : List (Piece α) → ℕ → List α
  | [], _ => []
  | p :: stream, n =>
    if n = 0 then []
    else p.message.toList ++ if n < p.bytes then [] else begunIn stream (n - p.bytes)

/-- The message got, the messages spoilt by that, and the rest of the stream. -/
def recv (stream : List (Piece α)) (made : PayloadHead → α) :
    Recv → Option (α × List α × List (Piece α))
  | .next =>
    match stream with
    | ⟨n, some m⟩ :: rest => if 0 < n ∧ n ≤ sizeofPayload then some (m, [], rest) else none
    | _ => none
  | .bytes n unpacked =>
    if 0 < n ∧ n ≤ sizeofPayload ∧ n ≤ (stream.map Piece.bytes).sum ∧
        ∀ p ∈ stream.head?, p.message ≠ none → p.bytes ≠ n then
      some (made unpacked, begunIn stream n, dropBytes stream n)
    else none

end Stream

/-- A payload on its way back, and the request that it comes from. -/
structure Message where
  request : PayloadHead
  payload : PayloadHead
  deriving DecidableEq, Repr

/-- `sent` and `lost` record the requests sent and those gone for good; `held` is the payload that
`sfs_handle_connection` tries to queue. -/
structure Link where
  sent : List PayloadHead
  toSfsd : List (Piece PayloadHead)
  sfsdPool : List PayloadHead
  serving : List PayloadHead
  sfsdDown : Bool
  toSfs : List (Piece Message)
  held : Option Message
  numRetries : ℕ
  ended : Bool
  sfsPool : List Message
  processed : List Message
  sfsDown : Bool
  lost : List PayloadHead

/-- A send of the dispatcher, with the bytes and what `tx` returns; a turn of `do_receive_thread`; a
thread that takes a request, and one that is done with it; a `sstack_recv_payload` of
`sfs_handle_connection`, and a try to queue what it gave; a call of `sfs_process_payload`. -/
inductive LinkEvent
  | send (request : PayloadHead) (len : ℕ) (ret : ℤ)
  | receive (r : Recv) (receipt : Receipt) (params queued : Bool) (d : Delivery) (len : ℕ)
  | start
  | serve (i : ℕ) (o : OpOutcome) (d : Delivery) (len : ℕ)
  | read (r : Recv) (receipt : Receipt)
  | queue (ok : Bool)
  | process
  deriving DecidableEq, Repr

namespace Link

def lose (s : Link) (request : PayloadHead) : Link :=
  { s with lost := s.lost ++ [request] }

/-- `tx` of the dispatcher, which leaves nothing whole on the connection if it takes a part. -/
def txRequest (s : Link) (request : PayloadHead) (len : ℕ) (ret : ℤ) : Link :=
  if ret ≤ 0 then s.lose request
  else
    let s' := { s with toSfsd := s.toSfsd ++ [.taken request len ret] }
    if ret = len then s' else s'.lose request

def answer (s : Link) (request : PayloadHead) (len : ℕ) (ret : ℤ) : List PayloadHead → Link
  | [] => s.lose request
  | payload :: _ =>
    if ret ≤ 0 then s.lose request
    else
      let s' := { s with toSfs := s.toSfs ++ [.taken ⟨request, payload⟩ len ret] }
      if ret = len then s' else s'.lose request

def crash (s : Link) (request : PayloadHead) : Link :=
  { s.lose request with sfsdDown := true }

/-- The payload of the request is sent back as it is, but for the status. -/
def sendUnsucessfulResponse (s : Link) (request : PayloadHead) (d : Delivery) (len : ℕ) : Link :=
  match sendPayload (.received request) 0 d with
  | .error _ => s.crash request
  | .ok out => s.answer request len d.txRet out.sent

def recvRequest (s : Link) (r : Recv) : Option (PayloadHead × Link) :=
  (recv s.toSfsd id r).map fun (request, spoilt, toSfsd) =>
    (request, { s with toSfsd, lost := s.lost ++ spoilt })

def recvAnswer (s : Link) (r : Recv) : Option (Message × Link) :=
  (recv s.toSfs (fun payload => ⟨payload, payload⟩) r).map fun (m, spoilt, toSfs) =>
    (m, { s with toSfs, lost := s.lost ++ spoilt.map Message.request })

/-- A turn of the loop of `do_receive_thread`. A request that is not queued is forgotten. -/
def doReceiveThread (s : Link) (r : Recv) (receipt : Receipt) (params queued : Bool) (d : Delivery)
    (len : ℕ) : Option Link :=
  if s.sfsdDown ∨ ¬ TxRet len d.txRet then none
  else match receipt, s.recvRequest r with
  | .unread, _ => some s
  | _, none => none
  | .null, some (request, s') => some (s'.lose request)
  | .fault, some (request, s') => some (s'.crash request)
  | .payload, some (request, s') =>
    if readable request.command = false then none
    else if params = false then some (s'.sendUnsucessfulResponse request d len)
    else if queued then some { s' with sfsdPool := s'.sfsdPool ++ [request] }
    else some (s'.lose request)

def startPayload (s : Link) : Option Link :=
  if s.sfsdDown then none
  else match s.sfsdPool with
  | [] => none
  | request :: sfsdPool => some { s with sfsdPool, serving := s.serving ++ [request] }

/-- A thread of the sfsd is done with `do_process_payload`. -/
def servePayload (s : Link) (i : ℕ) (o : OpOutcome) (d : Delivery) (len : ℕ) : Option Link :=
  if s.sfsdDown ∨ ¬ TxRet len d.txRet then none
  else match s.serving[i]? with
  | none => none
  | some request =>
    let s' := { s with serving := s.serving.eraseIdx i }
    match doProcessPayload request o d with
    | .error _ => some (s'.crash request)
    | .ok out => some (s'.answer request len d.txRet out.sent)

/-- `sfs_handle_connection` up to `retry`. -/
def readPayload (s : Link) (r : Recv) (receipt : Receipt) : Option Link :=
  if s.sfsDown ∨ s.ended ∨ s.held ≠ none then none
  else match receipt, s.recvAnswer r with
  | .unread, _ => some s
  | _, none => none
  | .null, some (m, s') => some (s'.lose m.request)
  | .fault, some (m, s') => some { s'.lose m.request with sfsDown := true }
  | .payload, some (m, s') =>
    if readable m.payload.command then some { s' with held := some m } else none

/-- `sfs_handle_connection` from `retry` on. The count of the failures is never set back. -/
def queuePayload (s : Link) (ok : Bool) : Option Link :=
  if s.sfsDown then none
  else match s.held with
  | none => none
  | some m =>
    if ok then some { s with held := none, sfsPool := s.sfsPool ++ [m] }
    else
      let s' := { s with numRetries := s.numRetries + 1 }
      if s.numRetries + 1 < maxJobSubmitRetries then some s'
      else some { s'.lose m.request with held := none, ended := true }

def processPayload (s : Link) : Option Link :=
  if s.sfsDown then none
  else match s.sfsPool with
  | [] => none
  | m :: sfsPool => some { s with sfsPool, processed := s.processed ++ [m] }

def send (s : Link) (request : PayloadHead) (len : ℕ) (ret : ℤ) : Option Link :=
  if s.sfsDown ∨ requested request.command = false ∨ ¬ TxRet len ret then none
  else some ({ s with sent := s.sent ++ [request] }.txRequest request len ret)

end Link

def linkStep (s : Link) : LinkEvent → Option Link
  | .send request len ret => s.send request len ret
  | .receive r receipt params queued d len => s.doReceiveThread r receipt params queued d len
  | .start => s.startPayload
  | .serve i o d len => s.servePayload i o d len
  | .read r receipt => s.readPayload r receipt
  | .queue ok => s.queuePayload ok
  | .process => s.processPayload

def Link.init : Link where
  sent := []
  toSfsd := []
  sfsdPool := []
  serving := []
  sfsdDown := false
  toSfs := []
  held := none
  numRetries := 0
  ended := false
  sfsPool := []
  processed := []
  sfsDown := false
  lost := []

def linkSystem : System Link LinkEvent where
  init s := s = .init
  step := linkStep

/-- A `send` takes the whole message or fails, and a `recv` gives just the next one. -/
def Framed (_ : Link) : LinkEvent → Prop
  | .send _ len ret => ret = -1 ∨ ret = len
  | .receive r _ _ _ d len => r = .next ∧ (d.txRet = -1 ∨ d.txRet = len)
  | .serve _ _ d len => d.txRet = -1 ∨ d.txRet = len
  | .read r _ => r = .next
  | .start | .queue _ | .process => True

instance (s : Link) : ∀ e, Decidable (Framed s e)
  | .send .. | .serve .. => inferInstanceAs (Decidable (_ ∨ _))
  | .receive .. => inferInstanceAs (Decidable (_ ∧ _))
  | .read .. => inferInstanceAs (Decidable (_ = _))
  | .start | .queue _ | .process => inferInstanceAs (Decidable True)

/-- The requests that are on their way, with those whose answers are. -/
def Link.onTheWay (s : Link) : List PayloadHead :=
  messages s.toSfsd ++ s.sfsdPool ++ s.serving ++
    (messages s.toSfs ++ s.held.toList ++ s.sfsPool).map Message.request

open Serdes.Proto in
/-- `readable` says which commands `sstack_recv_payload` has a branch for. -/
theorem recvBody_eq_none_iff {ctx : ℕ} {isIpv4 : Bool} {behind : ℕ → UInt8} {msg : Payload} :
    msg.recvBody ctx isIpv4 behind = .ok none ↔ readable msg.command = false := by
  constructor
  · intro h
    by_contra hread
    have hsome : Ensures (msg.recvBody ctx isIpv4 behind) (· ≠ none) := by
      unfold Payload.recvBody
      cases hc : msg.command with
      | bare _ | rmdir | esureCode =>
        rw [hc] at hread
        exact absurd rfl hread
      | _ =>
        repeat refine ensures_bind fun _ => ?_
        exact ensures_pure (Option.some_ne_none _)
    exact hsome none h rfl
  · intro h
    unfold Payload.recvBody
    cases hc : msg.command with
    | bare _ | rmdir | esureCode => rfl
    | _ =>
      rw [hc] at h
      cases h

end SeamlessStack.Exchange

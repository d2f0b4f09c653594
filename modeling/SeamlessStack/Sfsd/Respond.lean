import SeamlessStack.Serdes.Send

/-! How an sfsd answers a command: `handle_command` calls the operation, and `do_process_payload`
sends what came of it. What is followed here is who owns the payloads. `sfsd_ops.c` declares the
pointer `sfsd_global_cache_arr` as an array, so that what it takes for a cache is none. -/
namespace SeamlessStack.Sfsd.Respond

open Lib Function
open Serdes (Command maxOutstandingJobs)

/-- What the payload answers. A request and its response share their bytes; `packs`: what stands
where a response has its pointer can be packed. -/
structure PayloadHead where
  command : Command
  jobId : UInt64
  sequence : UInt32
  packs : Bool
  deriving DecidableEq, Repr

def attaches : Command → Bool
  | .write | .create | .remove | .rmdir | .readRsp | .lookupRsp => true
  | _ => false

/-- The payloads, and which have a buffer for data: the request is number 0, a new one 1. -/
structure Buffers where
  payloads : ℕ → Option PayloadHead
  data : ℕ → Bool

/-- A null pointer, a payload that was freed, a cache that is none, an unpackable response. -/
inductive RespondFault
  | null
  | freed
  | cache
  | wild
  deriving DecidableEq, Repr

namespace Buffers

def modify (bs : Buffers) (i : ℕ) (f : PayloadHead → PayloadHead) : Except RespondFault Buffers :=
  match bs.payloads i with
  | some p => .ok { bs with payloads := update bs.payloads i (some (f p)) }
  | none => .error .freed

/-- `sstack_free_payload`. The command says whether there are data to free. -/
def free (bs : Buffers) (i : ℕ) : Except RespondFault Buffers :=
  match bs.payloads i with
  | some p => .ok
      { payloads := update bs.payloads i none
        data := if attaches p.command then update bs.data i false else bs.data }
  | none => .error .freed

def only (p : PayloadHead) (data : Bool) : Buffers :=
  { payloads := update (fun _ => none) 0 (some p)
    data := update (fun _ => false) 0 data }

def received (req : PayloadHead) : Buffers := only req (attaches req.command)

@[simp] theorem only_payloads_zero (p : PayloadHead) (data : Bool) :
    (only p data).payloads 0 = some p := rfl

theorem modify_only (p : PayloadHead) (data : Bool) (f : PayloadHead → PayloadHead) :
    (only p data).modify 0 f = .ok (only (f p) data) := by
  simp [modify, only]

theorem free_only (p : PayloadHead) (data : Bool) :
    (only p data).free 0 = .ok
      ⟨fun _ => none, update (fun _ => false) 0 (data && !attaches p.command)⟩ := by
  cases hc : attaches p.command with
  | true => simp [free, only, hc]
  | false => simp [free, only, hc]

section
variable {bs bs' : Buffers} {i j : ℕ} {f : PayloadHead → PayloadHead}

end

end Buffers

/-- Whether the operation gets a payload or buffer, succeeds, and comes to the erasure code. -/
structure OpOutcome where
  alloc : Bool
  done : Bool
  ecode : Bool
  deriving DecidableEq, Repr

abbrev Operation := Buffers → OpOutcome → Except RespondFault (Buffers × Option ℕ)

def reusePayload : Operation := fun bs _ => return (bs, some 0)

/-- For a response without data; the payload is cleared before it is tested. -/
def sstackCreatePayload (bs : Buffers) (o : OpOutcome) (packs : Bool) :
    Except RespondFault (Buffers × ℕ) :=
  if o.alloc = false then .error .null
  else
    let p : PayloadHead := ⟨.bare (.unknown 0), 0, 0, packs⟩
    return ({ bs with payloads := update bs.payloads 1 (some p) }, 1)

/-- With the sequence number of the request. If the system call fails, the payload is given back to
a cache of `sfsd_global_cache_arr`. -/
def newPayload (packs : Bool) : Operation := fun bs o => do
  let (bs, r) ← sstackCreatePayload bs o packs
  if o.done then
    match bs.payloads 0 with
    | none => .error .freed
    | some req =>
      let bs ← bs.modify r fun p => { p with sequence := req.sequence }
      return (bs, some r)
  else .error .cache

/-- A `struct stat` does not fit into the message. -/
def sstackGetattr : Operation := newPayload false

def sstackAccess : Operation := newPayload true

def sstackReadlink : Operation := newPayload false

def sstackSetattr : Operation := reusePayload
def sstackLookup : Operation := reusePayload
def sstackSymlink : Operation := reusePayload
def sstackMknod : Operation := reusePayload
def sstackRemove : Operation := reusePayload
def sstackRmdir : Operation := reusePayload
def sstackRename : Operation := reusePayload
def sstackLink : Operation := reusePayload
def sstackReaddir : Operation := reusePayload
def sstackReaddirplus : Operation := reusePayload
def sstackFsstat : Operation := reusePayload
def sstackFsinfo : Operation := reusePayload
def sstackPathconf : Operation := reusePayload
def sstackCommit : Operation := reusePayload

/-- Errors are answered too. The stripes come from `sfsd_global_cache_arr`; any other read has a
buffer of its own, whose length is set at the end only. -/
def sstackRead : Operation := fun bs o =>
  if o.ecode then .error .cache
  else if o.alloc then do
    let bs ← bs.modify 0 fun p => { p with packs := p.packs || o.done }
    reusePayload { bs with data := update bs.data 0 true } o
  else reusePayload bs o

def sstackWrite : Operation := fun bs o =>
  if o.done then reusePayload bs o else return (bs, none)

def sstackCreate : Operation := fun bs _ => return (bs, none)

def sstackMkdir : Operation := fun _ _ => .error .cache

def sstackEsureCode : Operation := fun _ _ => .error .cache

/-- The `switch` of `handle_command`. The commands for chunks answer with the request whatever they
return. -/
def dispatch : Command → Option (Operation × Command)
  | .storage .add => some (reusePayload, .bareRsp .addStorage)
  | .storage .update => some (reusePayload, .bareRsp .updateStorage)
  | .storage .remove => some (reusePayload, .bareRsp .removeStorage)
  | .bare .getattr => some (sstackGetattr, .getattrRsp)
  | .setattr => some (sstackSetattr, .bareRsp .setattr)
  | .lookup => some (sstackLookup, .lookupRsp)
  | .access => some (sstackAccess, .accessRsp)
  | .bare .readlink => some (sstackReadlink, .readlinkRsp)
  | .read => some (sstackRead, .readRsp)
  | .write => some (sstackWrite, .writeRsp)
  | .create => some (sstackCreate, .createRsp)
  | .mkdir => some (sstackMkdir, .bareRsp .mkdir)
  | .symlink => some (sstackSymlink, .bareRsp .symlink)
  | .bare .mknod => some (sstackMknod, .bareRsp .mknod)
  | .remove => some (sstackRemove, .bareRsp .remove)
  | .rmdir => some (sstackRmdir, .bareRsp .rmdir)
  | .rename => some (sstackRename, .bareRsp .rename)
  | .bare .link => some (sstackLink, .bareRsp .link)
  | .bare .readdir => some (sstackReaddir, .bareRsp .readdir)
  | .bare .readdirplus => some (sstackReaddirplus, .bareRsp .readdirplus)
  | .bare .fsstat => some (sstackFsstat, .bareRsp .fsstat)
  | .bare .fsinfo => some (sstackFsinfo, .bareRsp .fsinfo)
  | .bare .pathconf => some (sstackPathconf, .bareRsp .pathconf)
  | .commit => some (sstackCommit, .bareRsp .commit)
  | .esureCode => some (sstackEsureCode, .bareRsp .esureCode)
  | _ => none

/-- The response is used without a test for null. -/
def handleCommand (bs : Buffers) (o : OpOutcome) : Except RespondFault (Buffers × ℕ) :=
  match bs.payloads 0 with
  | none => .error .freed
  | some req =>
    match dispatch req.command with
    | none => .error .null
    | some (operation, rsp) => do
      match ← operation bs o with
      | (_, none) => .error .null
      | (bs, some r) =>
        let bs ← bs.modify r fun p => { p with command := rsp }
        let bs ← bs.modify r fun p => { p with sequence := req.sequence }
        return (bs, r)

/-- The client's handle, whether there is memory for the message, and what `tx` returns. -/
structure Delivery where
  handle : UInt64
  malloc : Bool
  txRet : ℤ
  deriving DecidableEq, Repr

def copied : Command → Bool
  | .getattrRsp | .lookupRsp | .readlinkRsp => true
  | _ => false

/-- What is left, and the responses that were sent. -/
structure Processed where
  buffers : Buffers
  sent : List PayloadHead

/-- `sstack_send_payload` frees the payload once it has tried to send it, and not before. -/
def sendPayload (bs : Buffers) (r : ℕ) (d : Delivery) : Except RespondFault Processed :=
  match bs.payloads r with
  | none => .error .freed
  | some p =>
    if d.handle = -1 ∨ maxOutstandingJobs ≤ p.jobId then return ⟨bs, []⟩
    else do
      require (copied p.command = true → p.packs = true) .wild
      if d.malloc = false then return ⟨bs, []⟩
      require (p.command = .readRsp → p.packs = true) .wild
      let bs ← bs.free r
      return ⟨bs, if d.handle = 0 ∨ d.txRet = -1 then [] else [p]⟩

/-- `free_payload_protobuf`, which comes last, does nothing. -/
def doProcessPayload (req : PayloadHead) (o : OpOutcome) (d : Delivery) :
    Except RespondFault Processed := do
  let (bs, r) ← handleCommand (.received req) o
  sendPayload bs r d

/-- The response that a request should get. -/
def responseCode : Command → Option Command
  | .storage .add => some (.bareRsp .addStorage)
  | .storage .update => some (.bareRsp .updateStorage)
  | .storage .remove => some (.bareRsp .removeStorage)
  | .bare .getattr => some .getattrRsp
  | .bare .readlink => some .readlinkRsp
  | .bare .mknod => some (.bareRsp .mknod)
  | .bare .link => some (.bareRsp .link)
  | .bare .readdir => some (.bareRsp .readdir)
  | .bare .readdirplus => some (.bareRsp .readdirplus)
  | .bare .fsstat => some (.bareRsp .fsstat)
  | .bare .fsinfo => some (.bareRsp .fsinfo)
  | .bare .pathconf => some (.bareRsp .pathconf)
  | .setattr => some (.bareRsp .setattr)
  | .lookup => some .lookupRsp
  | .access => some .accessRsp
  | .read => some .readRsp
  | .write => some .writeRsp
  | .create => some .createRsp
  | .mkdir => some (.bareRsp .mkdir)
  | .symlink => some (.bareRsp .symlink)
  | .remove => some (.bareRsp .remove)
  | .rmdir => some (.bareRsp .rmdir)
  | .rename => some (.bareRsp .rename)
  | .commit => some (.bareRsp .commit)
  | .esureCode => some (.bareRsp .esureCode)
  | _ => none

/-- The response has the right command and job id and is sent once, with no payload left. A payload
used after it was freed is a fault. -/
def ServedRight (req : PayloadHead) (o : OpOutcome) (d : Delivery) : Prop :=
  ∃ bs r p out, handleCommand (.received req) o = .ok (bs, r) ∧ bs.payloads r = some p ∧
    responseCode req.command = some p.command ∧ p.jobId = req.jobId ∧
    doProcessPayload req o d = .ok out ∧ out.sent = [p] ∧ ∀ i, out.buffers.payloads i = none

/-- No buffer for data is left either. -/
def DataFreed (req : PayloadHead) (o : OpOutcome) (d : Delivery) : Prop :=
  ∀ out, doProcessPayload req o d = .ok out → ∀ i, out.buffers.data i = false

/-- The commands that are always answered with the payload of the request. -/
def alwaysReuses : Command → Bool
  | .storage _ => true
  | .bare .mknod | .bare .link | .bare .readdir | .bare .readdirplus => true
  | .bare .fsstat | .bare .fsinfo | .bare .pathconf => true
  | .setattr | .lookup | .symlink | .remove | .rmdir | .rename | .commit => true
  | _ => false

/-- The response is the payload of the request. -/
def Reuses (c : Command) (o : OpOutcome) : Prop :=
  alwaysReuses c = true ∨ (c = .read ∧ o.ecode = false) ∨ (c = .write ∧ o.done = true)

/-- The request can be sent as its response, and is. A lookup never sets the path of its response, a
failed read not the length. -/
structure Delivers (req : PayloadHead) (o : OpOutcome) (d : Delivery) : Prop where
  handle : d.handle ≠ -1 ∧ d.handle ≠ 0
  jobId : req.jobId < maxOutstandingJobs
  lookup : req.command = .lookup → req.packs = true
  read : req.command = .read → req.packs = true ∨ (o.alloc = true ∧ o.done = true)
  malloc : d.malloc = true
  tx : d.txRet ≠ -1

theorem dispatch_responseCode (c : Command) : (dispatch c).map Prod.snd = responseCode c := by
  cases c with
  | storage k => cases k <;> rfl
  | bare k => cases k <;> rfl
  | _ => rfl

/-! Commands that are answered with another payload, or not at all. -/

section
variable {req p : PayloadHead} {o : OpOutcome} {d : Delivery} {bs : Buffers} {r : ℕ}
  {out : Processed}

theorem handleCommand_of_op {op : Operation} {rsp : Command} {data : Bool}
    (hd : dispatch req.command = some (op, rsp))
    (hop : op (.received req) o = .ok (.only p data, some 0)) :
    handleCommand (.received req) o =
      .ok (.only { p with command := rsp, sequence := req.sequence } data, 0) := by
  simp only [handleCommand, Buffers.received, Buffers.only_payloads_zero, hd] at hop ⊢
  simp only [hop, ok_bind, Buffers.modify_only]
  rfl

theorem dispatch_of_alwaysReuses {c : Command} (h : alwaysReuses c = true) :
    ∃ rsp, dispatch c = some (reusePayload, rsp) ∧ rsp ≠ .readRsp ∧
      (copied rsp = true ↔ c = .lookup) ∧ (attaches rsp = true ↔ c = .lookup) := by
  unfold alwaysReuses at h
  split at h
  · rename_i k
    cases k <;> exact ⟨_, rfl, by decide, by decide, by decide⟩
  all_goals first
    | exact ⟨_, rfl, by decide, by decide, by decide⟩
    | cases h

def Packable (p : PayloadHead) : Prop :=
  (copied p.command = true → p.packs = true) ∧ (p.command = .readRsp → p.packs = true)

/-- A request that is its own response: what can be packed, and which buffer is not freed. -/
structure Answers (req : PayloadHead) (o : OpOutcome) (p : PayloadHead) (data : Bool) : Prop where
  code : responseCode req.command = some p.command
  jobId : p.jobId = req.jobId
  packable : Packable p ↔ (req.command = .lookup → req.packs = true) ∧
    (req.command = .read → req.packs = true ∨ (o.alloc = true ∧ o.done = true))
  data : (data && !attaches p.command) = attaches req.command

theorem handleCommand_of_alwaysReuses (h : alwaysReuses req.command = true) :
    ∃ p data, handleCommand (.received req) o = .ok (.only p data, 0) ∧ Answers req o p data := by
  obtain ⟨rsp, hd, hread, hcopied, hattaches⟩ := dispatch_of_alwaysReuses h
  refine ⟨_, _, handleCommand_of_op hd rfl, ?_⟩
  have hne : req.command ≠ .read := by
    intro hc
    rw [hc] at h
    cases h
  constructor
  case code => rw [← dispatch_responseCode, hd]; rfl
  case jobId => rfl
  case packable => simp [Packable, hread, hcopied, hne]
  case data =>
    by_cases hc : req.command = .lookup
    · simp [hc, attaches]
    · have hno : attaches rsp = false := by simpa [hc] using hattaches
      simp [hno]

theorem handleCommand_read (hc : req.command = .read) (he : o.ecode = false) :
    ∃ p data, handleCommand (.received req) o = .ok (.only p data, 0) ∧ Answers req o p data := by
  have hd : dispatch req.command = some (sstackRead, .readRsp) := by rw [hc]; rfl
  cases ha : o.alloc with
  | false =>
    have hop : sstackRead (.received req) o = .ok (.received req, some 0) := by
      simp [sstackRead, he, ha, reusePayload, pure, Except.pure]
    refine ⟨_, _, handleCommand_of_op hd hop, ?_⟩
    constructor <;> simp [hc, ha, responseCode, Packable, copied, attaches]
  | true =>
    have hop : sstackRead (.received req) o =
        .ok (.only { req with packs := req.packs || o.done } true, some 0) := by
      simp only [sstackRead, he, ha, Buffers.received, Buffers.modify_only, ok_bind, reusePayload]
      simp [Buffers.only, pure, Except.pure]
    refine ⟨_, _, handleCommand_of_op hd hop, ?_⟩
    constructor <;> simp [hc, ha, responseCode, Packable, copied, attaches]

theorem handleCommand_write (hc : req.command = .write) (hdone : o.done = true) :
    ∃ p data, handleCommand (.received req) o = .ok (.only p data, 0) ∧ Answers req o p data := by
  have hd : dispatch req.command = some (sstackWrite, .writeRsp) := by rw [hc]; rfl
  have hop : sstackWrite (.received req) o = .ok (.received req, some 0) := if_pos hdone
  refine ⟨_, _, handleCommand_of_op hd hop, ?_⟩
  constructor <;> simp [hc, responseCode, Packable, copied, attaches]

theorem handleCommand_of_reuses (h : Reuses req.command o) :
    ∃ p data, handleCommand (.received req) o = .ok (.only p data, 0) ∧ Answers req o p data := by
  obtain h | ⟨hc, he⟩ | ⟨hc, hdone⟩ := h
  · exact handleCommand_of_alwaysReuses h
  · exact handleCommand_read hc he
  · exact handleCommand_write hc hdone

/-- A payload that can be sent and is. -/
structure Sendable (p : PayloadHead) (d : Delivery) : Prop where
  handle : d.handle ≠ -1 ∧ d.handle ≠ 0
  jobId : p.jobId < maxOutstandingJobs
  packable : Packable p
  malloc : d.malloc = true
  tx : d.txRet ≠ -1

theorem sendPayload_of_sendable (h : Sendable p d) (data : Bool) :
    sendPayload (.only p data) 0 d = .ok
      ⟨⟨fun _ => none, update (fun _ => false) 0 (data && !attaches p.command)⟩, [p]⟩ := by
  have hvalid : ¬ (d.handle = -1 ∨ maxOutstandingJobs ≤ p.jobId) := by
    rintro (hh | hj)
    · exact h.handle.1 hh
    · exact absurd h.jobId (UInt64.not_lt.mpr hj)
  have htx : ¬ (d.handle = 0 ∨ d.txRet = -1) := by
    rintro (hh | ht)
    · exact h.handle.2 hh
    · exact h.tx ht
  simp only [sendPayload, Buffers.only_payloads_zero, if_neg hvalid, if_neg htx,
    require_bind_of h.packable.1, require_bind_of h.packable.2, h.malloc, Buffers.free_only,
      ok_bind]
  rfl

theorem Answers.sendable_iff {data : Bool} (h : Answers req o p data) :
    Sendable p d ↔ Delivers req o d := by
  constructor
  · intro hs
    obtain ⟨hlookup, hread⟩ := h.packable.mp hs.packable
    exact ⟨hs.handle, h.jobId ▸ hs.jobId, hlookup, hread, hs.malloc, hs.tx⟩
  · intro hd
    exact ⟨hd.handle, h.jobId.symm ▸ hd.jobId, h.packable.mpr ⟨hd.lookup, hd.read⟩, hd.malloc,
      hd.tx⟩

theorem doProcessPayload_of_reuses (h : Reuses req.command o) (hd : Delivers req o d) :
    ServedRight req o d ∧ (DataFreed req o d ↔ attaches req.command = false) := by
  obtain ⟨p, data, hrun, hans⟩ := handleCommand_of_reuses h
  have hproc : doProcessPayload req o d = .ok
      ⟨⟨fun _ => none, update (fun _ => false) 0 (attaches req.command)⟩, [p]⟩ := by
    unfold doProcessPayload
    rw [hrun, ok_bind, ← hans.data]
    exact sendPayload_of_sendable (hans.sendable_iff.mpr hd) data
  refine ⟨⟨_, _, p, _, hrun, rfl, hans.code, hans.jobId, hproc, rfl, fun _ => rfl⟩, ?_⟩
  constructor
  · intro hfreed
    exact hfreed _ hproc 0
  · intro hnone out hout
    rw [hproc] at hout
    cases hout
    simp [hnone]

end

end SeamlessStack.Sfsd.Respond

import SeamlessStack.Jobs.Flow
import SeamlessStack.Jobs.JobId

/-! The calls of FUSE that submit jobs, with what they share: the ids of jobs, `jobid_tree`,
`jobmap_tree` and the queues. A step of a call goes up to its next allocation, tree operation,
submission or wait, and follows the return that a failure there leads to. -/
namespace SeamlessStack.Jobs

open Lib

inductive Entry
  | read
  | write
  | unlink
  | rmdir
  deriving DecidableEq, Repr

def Entry.loops : Entry → Bool
  | .read | .write => true
  | .unlink | .rmdir => false

/-- `sfs_read` and `sfs_write` set `QOS_HIGH`; others leave the `INVALID_PRIORITY` of
`sfs_job_init`. -/
def Entry.priority : Entry → ℤ
  | .read | .write => 0
  | .unlink | .rmdir => -1

/-- The arguments of a call, and `i_size` of the inode it finds. -/
structure Args where
  entry : Entry
  size : BitVec 64
  offset : BitVec 64
  iSize : BitVec 64
  deriving DecidableEq, Repr

/-- What `bytes_to_read` or `bytes_to_write`, an `int`, starts from. -/
def Args.bytes (a : Args) : BitVec 32 :=
  match a.entry with
  | .read => (if a.size > a.iSize then a.iSize else a.size).setWidth 32
  | .write => a.size.setWidth 32
  | .unlink | .rmdir => 0

/-- `read_size` or `write_size`, by the end of the extent; `sfs_read` does not expect NULL. -/
def Args.jobSize (a : Args) (extentEnd : Option (BitVec 64)) : Option (BitVec 64) :=
  match a.entry, extentEnd with
  | .read, none => none
  | .write, none => some a.size
  | .read, some e | .write, some e =>
    some (if a.offset + a.size > e then e - a.offset else 0)
  | .unlink, _ | .rmdir, _ => some 0

/-- A job before its submission, numbered as it was allocated; the id is `none` for -1. -/
structure Draft where
  job : ℕ
  id : Option ℕ
  bytes : BitVec 64
  deriving DecidableEq, Repr

/-- Where a call stands: what it does next. -/
inductive CallPc
  | createJobMap
  | jobInit
  | firstId (job : ℕ)
  | nextId (job : ℕ)
  | payload (job : ℕ) (id : Option ℕ)
  | jobIds (d : Draft)
  | jobStatus (d : Draft)
  | mapInsert (d : Draft)
  | submit (d : Draft)
  | contextInsert
  | wait
  | report (jobIds : List (Option ℕ))
  | contextRemove
  | returned
  deriving DecidableEq, Repr

/-- A call with its locals and its job map; `ids` and `made` record the ids and job structures it
got. -/
structure Call where
  args : Args
  pc : CallPc
  bytesLeft : BitVec 32
  bytesIssued : BitVec 64
  jobIds : List (Option ℕ)
  ids : List ℕ
  made : List ℕ
  deriving DecidableEq, Repr

def Call.start (args : Args) : Call where
  args
  pc := .createJobMap
  bytesLeft := args.bytes
  bytesIssued := 0
  jobIds := []
  ids := []
  made := []

/-- `sfs_read` takes what is left from the last value, `sfs_write` from the size of the request. -/
def Call.issue (c : Call) (bytes : BitVec 64) : Call :=
  let bytesIssued := c.bytesIssued + bytes
  let bytesLeft := match c.args.entry with
    | .read => (c.bytesLeft.signExtend 64 - bytesIssued).setWidth 32
    | .write => (c.args.size - bytesIssued).setWidth 32
    | .unlink | .rmdir => c.bytesLeft
  { c with bytesIssued, bytesLeft }

def jobKey : Option ℕ → ℕ
  | some id => id
  | none => 2 ^ 64 - 1

/-- The trees hold their nodes by key; threads are numbered by their ids. A freed job is taken to
stay as it was, so that its queues do not change. `dead`: an access through NULL or a failed
assertion. -/
structure Process where
  ids : JobIds
  jobidTree : List (ℕ × ℕ)
  jobmapTree : List ℕ
  queues : Dispatch
  freed : List ℕ
  nextJob : ℕ
  calls : ℕ → Option Call
  dead : Bool

/-- Whether what a step asks for is granted, where the extent ends, and what the response threads
made of `num_jobs_left`. -/
structure Outcome where
  ok : Bool
  extentEnd : Option (BitVec 64)
  numJobsLeft : ℤ
  deriving DecidableEq, Repr

namespace Process

def die (s : Process) : Process := { s with dead := true }

def put (s : Process) (thread : ℕ) (c : Call) : Process :=
  { s with calls := Function.update s.calls thread (some c) }

def go (s : Process) (thread : ℕ) (c : Call) (pc : CallPc) : Process :=
  s.put thread { c with pc }

def takeId (s : Process) (thread : ℕ) (c : Call) (pc : Option ℕ → CallPc) : Option Process :=
  (getNextJobId s.ids).map fun r =>
    { s with ids := r.2 }.put thread { c with pc := pc r.1, ids := c.ids ++ r.1.toList }

def job2threadMapInsert (s : Process) (id : Option ℕ) (job : ℕ) : Process :=
  if jobKey id ∈ s.jobidTree.map Prod.fst then s.die
  else { s with jobidTree := (jobKey id, job) :: s.jobidTree }

def job2threadMapRemove (s : Process) (key : ℕ) : Process :=
  { s with jobidTree := s.jobidTree.filter fun n => n.1 ≠ key }

def jobContextInsert (s : Process) (thread : ℕ) : Process :=
  if thread ∈ s.jobmapTree then s.die
  else { s with jobmapTree := thread :: s.jobmapTree }

def jobContextRemove (s : Process) (thread : ℕ) : Process :=
  { s with jobmapTree := s.jobmapTree.filter fun t => t ≠ thread }

/-- `sfs_submit_job` and its result. A failed call looks for its thread among the job ids. -/
def submit (s : Process) (thread : ℕ) (c : Call) (d : Draft) : Process :=
  let job : Job := ⟨d.job, 1⟩
  match sfsSubmitJob c.args.entry.priority s.queues.jobList job with
  | none => s.die
  | some (.ok jobList) =>
    let accepted := s.queues.accepted ++ [(c.args.entry.priority, job)]
    let pc := if c.args.entry.loops then .jobInit else .contextInsert
    { s with queues := { s.queues with jobList, accepted } }.go thread (c.issue d.bytes) pc
  | some (.error _) =>
    ((s.jobContextRemove thread).job2threadMapRemove thread).go thread c .returned

/-- A turn of the loop in `sfs_send_read_status` or `sfs_send_write_status`: the job is taken out of
the tree and freed, and stays in the queues. -/
def report (s : Process) (thread : ℕ) (c : Call) (id : Option ℕ) (jobIds : List (Option ℕ)) :
    Process :=
  match s.jobidTree.lookup (jobKey id) with
  | none => s.die
  | some job =>
    { s.job2threadMapRemove (jobKey id) with freed := job :: s.freed }.go thread c (.report jobIds)

/-- One step of the call `c` of a thread. -/
def advance (s : Process) (thread : ℕ) (c : Call) (x : Outcome) : Option Process :=
  match c.pc with
  -- the checks and lookups before `create_job_map`, and that allocation
  | .createJobMap => some (s.go thread c (if x.ok then .jobInit else .returned))
  | .jobInit =>
    if c.args.entry.loops ∧ c.bytesLeft = 0 then some (s.go thread c .contextInsert)
    else if x.ok then
      some ({ s with nextJob := s.nextJob + 1 }.put thread
        { c with pc := .firstId s.nextJob, made := c.made ++ [s.nextJob] })
    else some (s.go thread c .returned)
  -- `sfs_job_init` takes an id, and the caller takes another one in its place
  | .firstId job => s.takeId thread c fun _ => .nextId job
  | .nextId job => s.takeId thread c fun id => .payload job id
  | .payload job id => match c.args.jobSize x.extentEnd with
    | none => some s.die
    | some bytes => some (s.go thread c (.jobIds ⟨job, id, bytes⟩))
  | .jobIds d =>
    if x.ok then some (s.put thread { c with pc := .jobStatus d, jobIds := c.jobIds ++ [d.id] })
    else some (s.go thread c .returned)
  -- `sfs_unlink` and `sfs_rmdir` do not store what `realloc` returns, and write through the
  -- NULL that `create_job_map` left in `job_status`
  | .jobStatus d =>
    if x.ok then
      if c.args.entry.loops then some (s.go thread c (.mapInsert d)) else some s.die
    else some (s.go thread c .returned)
  | .mapInsert d =>
    if x.ok then some ((s.job2threadMapInsert d.id d.job).go thread c (.submit d))
    else some ((s.jobContextRemove thread).go thread c .returned)
  | .submit d => some (s.submit thread c d)
  | .contextInsert =>
    if x.ok then some ((s.jobContextInsert thread).go thread c .wait)
    else some (s.go thread c .returned)
  -- `sfs_wait_for_completion` waits once, and any wakeup ends it
  | .wait => match c.args.entry with
    | .read =>
      some (s.go thread c (if x.numJobsLeft = 0 then .report c.jobIds else .contextRemove))
    | .write => some (s.go thread c (.report c.jobIds))
    | .unlink | .rmdir => some (s.go thread c .returned)
  | .report [] => some (s.go thread c .contextRemove)
  | .report (id :: jobIds) => some (s.report thread c id jobIds)
  | .contextRemove => some ((s.jobContextRemove thread).go thread c .returned)
  | .returned => none

end Process

inductive CallEvent
  | call (thread : ℕ) (args : Args)
  | advance (thread : ℕ) (x : Outcome)
  | pass
  | iterate
  deriving DecidableEq, Repr

/-- A thread makes one call after the other. -/
def callStep (s : Process) (e : CallEvent) : Option Process :=
  if s.dead then none
  else match e with
  | .call thread args => match s.calls thread with
    | none => some (s.put thread (.start args))
    | some c => if c.pc = .returned then some (s.put thread (.start args)) else none
  | .advance thread x => match s.calls thread with
    | none => none
    | some c => s.advance thread c x
  | .pass => (step s.queues .pass).map fun queues => { s with queues }
  | .iterate => (step s.queues .iterate).map fun queues => { s with queues }

def Process.init : Process where
  ids := initJobIds
  jobidTree := []
  jobmapTree := []
  queues := start
  freed := []
  nextJob := 0
  calls := fun _ => none
  dead := false

def callSystem : System Process CallEvent where
  init s := s = .init
  step := callStep

/-- Nothing is left behind: no node for a job id or the thread, no bit of a job id, and no freed job
in a queue. -/
structure Process.Clean (s : Process) (thread : ℕ) (c : Call) : Prop where
  jobidTree : ∀ id ∈ c.ids, id ∉ s.jobidTree.map Prod.fst
  jobmapTree : thread ∉ s.jobmapTree
  bitmap : ∀ id ∈ c.ids, s.ids.bitmap.test id = false
  queues : ∀ job ∈ c.made, job ∈ s.freed →
    job ∉ (onQueues s.queues.jobList).map Job.id ∧
      job ∉ (onQueues s.queues.pendingJobs).map Job.id

end SeamlessStack.Jobs

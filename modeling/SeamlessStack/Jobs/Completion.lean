import Mathlib.Tactic
import SeamlessStack.Lib.Runs

/-! One request of a FUSE thread, from the submission of its jobs to the return of
`sfs_wait_for_completion`, with the dispatcher and the threads that run `sfs_process_read_response`
and `sfs_process_write_response`. A step is a search in a tree, a section under the lock of the job
map with the test that guards it, a signal, or the accesses between two of those. -/
namespace SeamlessStack.Jobs

def sstackSuccess : ℤ := 100
def sstackEcksum : ℤ := 102
def sstackNomem : ℤ := 103
def eio : ℤ := 5

inductive Op
  | read
  | write
  deriving DecidableEq, Repr

inductive JobStatus
  | started
  | complete
  | failed
  deriving DecidableEq, Repr

/-- The header and result of a payload that a client sent back. -/
structure Response where
  job : ℕ
  client : ℕ
  commandOk : ℤ
  deriving DecidableEq, Repr

/-- What `job->payload` points to. -/
inductive Payload
  | request
  | response (r : Response)
  deriving DecidableEq, Repr

/-- The part of `sfs_job_t` that the response threads use; jobs are numbered by their ids. -/
structure JobData where
  payload : Payload
  jobStatus : List JobStatus
  deriving DecidableEq, Repr

/-- `numJobsLeft₀` is what `create_job_map` leaves in `num_jobs_left`, not initialised. -/
structure Request where
  op : Op
  numJobs : ℕ
  numClients : ℕ
  numJobsLeft₀ : ℤ
  pos : 0 < numClients
  read_one : op = .read → numClients = 1

inductive FusePc
  | submitting
  | inserted
  | asleep
  | woken
  | returned
  deriving DecidableEq, Repr

/-- What the dispatcher did about one client of a job. -/
inductive Stage
  | unsent
  | sent
  | marked
  deriving DecidableEq, Repr

/-- Where the thread that processes a response stands. -/
inductive Handler
  | idle
  | lookup
  | found
  | counted
  | failed
  | stored
  | tallied (incomplete fail : ℕ)
  | decremented (fail : ℕ)
  | recorded (zero : Bool)
  | last
  | done
  deriving DecidableEq, Repr

/-- One client of one job, with its response; `counted`: it decremented `num_jobs_left`. -/
structure Slot where
  job : ℕ
  client : ℕ
  stage : Stage
  code : ℤ
  handler : Handler
  counted : Bool
  deriving DecidableEq, Repr

/-- The job map and the jobs; `errNo` is `none` until something is stored in `err_no`. -/
structure Progress where
  fuse : FusePc
  numJobsLeft : ℤ
  errNo : Option ℤ
  opStatus : List JobStatus
  jobs : List JobData
  slots : List Slot
  deriving DecidableEq, Repr

/-- On a checksum or memory error the read gives up or submits the job again, and may keep the
payload of the response. -/
inductive Retry
  | giveUp
  | resubmit (keep : Bool)
  deriving DecidableEq, Repr

inductive CompletionEvent
  | submit
  | insert
  | sleep
  | wakeup
  | spurious
  | send (i : ℕ)
  | mark (i : ℕ)
  | receive (i : ℕ) (commandOk : ℤ)
  | handle (i : ℕ) (retry : Retry)
  deriving DecidableEq, Repr

namespace Progress

def signal (s : Progress) : Progress :=
  if s.fuse = .asleep then { s with fuse := .woken } else s

def setSlot (s : Progress) (i : ℕ) (slot : Slot) : Progress :=
  { s with slots := s.slots.set i slot }

def go (s : Progress) (i : ℕ) (slot : Slot) (handler : Handler) : Progress :=
  s.setSlot i { slot with handler }

def keepPayload (s : Progress) (slot : Slot) : Progress :=
  { s with jobs := s.jobs.modify slot.job fun job =>
      { job with payload := .response ⟨slot.job, slot.client, slot.code⟩ } }

def setStatus (s : Progress) (job client : ℕ) (status : JobStatus) : Progress :=
  { s with jobs := s.jobs.modify job fun data =>
      { data with jobStatus := data.jobStatus.set client status } }

def mapped (s : Progress) : Bool := s.fuse = .inserted ∨ s.fuse = .asleep ∨ s.fuse = .woken

/-- The jobs get their statuses from `calloc`, which makes them `JOB_STARTED`. -/
def submit (q : Request) (s : Progress) : Progress :=
  { s with
    numJobsLeft := s.numJobsLeft + 1
    jobs := s.jobs ++ [⟨.request, List.replicate q.numClients .started⟩]
    slots := s.slots ++ (List.range q.numClients).map fun client =>
      ⟨s.jobs.length, client, .unsent, 0, .idle, false⟩ }

/-- `sfs_process_read_response` behind the search for the job map. -/
def readResponse (s : Progress) (i : ℕ) (slot : Slot) (retry : Retry) : Progress :=
  if slot.code = sstackSuccess then
    { s with numJobsLeft := s.numJobsLeft - 1 }.setSlot i
      { slot with handler := .counted, counted := true }
  else if slot.code = -sstackEcksum ∨ slot.code = -sstackNomem then
    match retry with
    | .giveUp => s.go i slot .done
    | .resubmit keep =>
      (if keep then s.keepPayload slot else s).setSlot i
        { slot with stage := .unsent, handler := .idle }
  else { s with errNo := some slot.code }.go i slot .failed

def incomplete (s : Progress) (slot : Slot) : ℕ :=
  match s.jobs[slot.job]? with
  | some data => data.jobStatus.countP (· = .started)
  | none => 0

def numClientsFail (s : Progress) : ℕ := s.opStatus.countP (· = .failed)

/-- One step of the thread that processes the response of slot `i`. -/
def handle (q : Request) (s : Progress) (i : ℕ) (slot : Slot) (retry : Retry) :
    Option Progress :=
  match slot.handler with
  | .idle => none
  | .lookup => some (s.go i slot (if s.mapped then .found else .done))
  | .found => match q.op with
    | .read => some (s.readResponse i slot retry)
    | .write =>
      if slot.code = sstackSuccess then
        some (((s.keepPayload slot).setStatus slot.job 0 .complete).go i slot .stored)
      else some (s.go i slot .stored)
  | .counted => some (((s.keepPayload slot).setStatus slot.job 0 .complete).go i slot .stored)
  | .failed => some (s.signal.go i slot .done)
  | .stored => match q.op with
    | .read => some (s.go i slot (.recorded (s.numJobsLeft = 0)))
    | .write => some (s.go i slot (.tallied (s.incomplete slot) s.numClientsFail))
  | .tallied incomplete fail =>
    if incomplete = 0 then
      some ({ s with numJobsLeft := s.numJobsLeft - 1 }.setSlot i
        { slot with handler := .decremented fail, counted := true })
    else some (s.go i slot (.decremented fail))
  | .decremented fail =>
    if s.numJobsLeft = 0 then
      some ({ s with errNo := some (if fail > q.numClients / 2 then eio else slot.code) }.go i slot
        (.recorded true))
    else some (s.go i slot (.recorded false))
  | .recorded zero =>
    some ((if zero then s.signal else s).go i slot (if q.op = .read then .done else .last))
  | .last => some (s.signal.go i slot .done)
  | .done => none

end Progress

open Progress in
/-- Nothing is left to see once the FUSE thread has returned. -/
def completionStep (q : Request) (s : Progress) (e : CompletionEvent) : Option Progress :=
  if s.fuse = .returned then none
  else match e with
  | .submit =>
    if s.fuse = .submitting ∧ s.jobs.length < q.numJobs then some (submit q s) else none
  | .insert =>
    if s.fuse = .submitting ∧ s.jobs.length = q.numJobs then some { s with fuse := .inserted }
    else none
  | .sleep => if s.fuse = .inserted then some { s with fuse := .asleep } else none
  | .wakeup => if s.fuse = .woken then some { s with fuse := .returned } else none
  | .spurious => if s.fuse = .asleep then some { s with fuse := .woken } else none
  | .send i => match s.slots[i]? with
    | some slot =>
      if slot.stage = .unsent then some (s.setSlot i { slot with stage := .sent }) else none
    | none => none
  | .mark i => match s.slots[i]? with
    | some slot =>
      if slot.stage = .sent then
        some ((s.setStatus slot.job slot.client .started).setSlot i { slot with stage := .marked })
      else none
    | none => none
  | .receive i commandOk => match s.slots[i]? with
    | some slot =>
      if slot.stage ≠ .unsent ∧ slot.handler = .idle then
        some (s.setSlot i { slot with code := commandOk, handler := .lookup })
      else none
    | none => none
  | .handle i retry => match s.slots[i]? with
    | some slot => handle q s i slot retry
    | none => none

/-- `sfs_write` sets `op_status` for its clients. -/
def startRequest (q : Request) : Progress where
  fuse := .submitting
  numJobsLeft := q.numJobsLeft₀
  errNo := none
  opStatus := List.replicate q.numClients .started
  jobs := []
  slots := []

def completionSystem (q : Request) : Lib.System Progress CompletionEvent where
  init s := s = startRequest q
  step := completionStep q

end SeamlessStack.Jobs

import Mathlib.Tactic
import SeamlessStack.Lib.Runs

/-! The queues of jobs by priority and the dispatcher. A step is a call of `sfs_submit_job`, the
start of a pass of the dispatcher, or one iteration of its inner loop. -/
namespace SeamlessStack.Jobs

def highPriority : ℤ := 0
def numPriorityMax : ℤ := 2
def maxHighPrio : ℕ := 64

/-- The part of `sfs_job_t` that the queues and the dispatcher use. -/
structure Job where
  id : ℕ
  numClients : ℕ
  deriving DecidableEq, Repr

inductive Errno
  | einval
  deriving DecidableEq, Repr

/-- `sfs_job_queue_t` by priority; `none` is a list head that was never initialised. -/
abbrev JobList := List (Option (List Job))

def sfsJobListInit : JobList :=
  (List.range (numPriorityMax.toNat + 1)).map fun i =>
    if i < numPriorityMax.toNat then some [] else none

/-- `none` is an access through a list head that was never initialised. -/
def sfsEnqueueJob (priority : ℤ) (jobList : JobList) (job : Job) :
    Option (Except Errno JobList) :=
  if priority < highPriority ∨ priority > numPriorityMax then some (.error .einval)
  else match jobList[priority.toNat]? with
    | some (some queue) => some (.ok (jobList.set priority.toNat (some (queue ++ [job]))))
    | _ => none

def sfsSubmitJob (priority : ℤ) (jobList : JobList) (job : Job) :
    Option (Except Errno JobList) :=
  if priority < highPriority ∨ priority > numPriorityMax then some (.error .einval)
  else sfsEnqueueJob priority jobList job

/-- Where the dispatcher stands; in a pass it has the counter `i`. -/
inductive Pc
  | asleep
  | inPass (i : ℕ)
  deriving DecidableEq, Repr

/-- `sent` records the sends as job and client, `accepted` the jobs that `sfs_submit_job` returned 0
for, with their priorities; `due` and `served`, for the pass that goes on, the priorities that had
jobs at its start and those a job was sent from. -/
structure Dispatch where
  jobList : JobList
  pendingJobs : JobList
  pc : Pc
  sent : List (ℕ × ℕ)
  accepted : List (ℤ × Job)
  due : List ℤ
  served : List ℤ
  deriving DecidableEq, Repr

inductive Event
  | submit (priority : ℤ) (job : Job)
  | pass
  | iterate
  deriving DecidableEq, Repr

def sends (job : Job) : List (ℕ × ℕ) := (List.range job.numClients).map fun j => (job.id, j)

def hasJobs (jobList : JobList) (priority : ℤ) : Bool :=
  match jobList[priority.toNat]? with
  | some (some (_ :: _)) => true
  | _ => false

/-- One test and body of the inner loop of `sfs_dispatcher`. Only the queue of high priority is
looked at, and the job is detached before the counter is checked. -/
def Dispatch.iterate (s : Dispatch) (i : ℕ) : Option Dispatch :=
  match s.jobList[highPriority.toNat]? with
  | some (some []) => some { s with pc := .asleep }
  | some (some (job :: queue)) =>
    let s := { s with jobList := s.jobList.set highPriority.toNat (some queue) }
    if i = maxHighPrio then some { s with pc := .asleep }
    else do
      let r ← sfsEnqueueJob highPriority s.pendingJobs job
      let pendingJobs := match r with
        | .ok l => l
        | .error _ => s.pendingJobs
      some { s with
        pendingJobs
        pc := .inPass (i + 1)
        sent := s.sent ++ sends job
        served := highPriority :: s.served }
  | _ => none

/-- The jobs submitted are different job structures. -/
def step (s : Dispatch) : Event → Option Dispatch
  | .submit priority job =>
    if job.id ∈ s.accepted.map (fun a => a.2.id) then none
    else do
      match ← sfsSubmitJob priority s.jobList job with
      | .ok jobList => some { s with jobList, accepted := s.accepted ++ [(priority, job)] }
      | .error _ => some s
  | .pass => match s.pc with
    | .asleep => some { s with
        pc := .inPass 0
        due := [0, 1, 2].filter (hasJobs s.jobList)
        served := [] }
    | .inPass _ => none
  | .iterate => match s.pc with
    | .asleep => none
    | .inPass i => s.iterate i

def start : Dispatch where
  jobList := sfsJobListInit
  pendingJobs := sfsJobListInit
  pc := .asleep
  sent := []
  accepted := []
  due := []
  served := []

def dispatchSystem : Lib.System Dispatch Event where
  init s := s = start
  step := step

end SeamlessStack.Jobs

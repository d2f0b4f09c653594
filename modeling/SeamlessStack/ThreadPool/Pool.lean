import Mathlib.Tactic
import SeamlessStack.Lib.Runs

/-! The thread pool: its queue of jobs, its workers and its callers. Every stretch of code under
`pool_mutex` is one step, so the states between steps are those in which the mutex is free. Address
0 is `NULL`. -/
namespace SeamlessStack.ThreadPool

open Function

structure Job where
  jobNext : ℕ
  jobFunc : ℕ
  jobArg : ℕ
  deriving DecidableEq, Repr

/-- A job as its function and argument were queued, or as a worker reads them. -/
structure Request where
  job : ℕ
  func : ℕ
  arg : ℕ
  deriving DecidableEq, Repr

/-- A looping worker has the mutex or has not had it yet. One that timed out remembers how many
workers it left behind. -/
inductive Worker
  | looping
  | asleep (timed : Bool)
  | woken (timedout : Bool)
  | running (job : ℕ)
  | exited
  | timedOut (left : ℕ)
  deriving DecidableEq, Repr

def Worker.live : Worker → Bool
  | .exited | .timedOut _ => false
  | _ => true

def Worker.idle : Worker → Bool
  | .asleep _ | .woken _ => true
  | _ => false

def Worker.active : Worker → Bool
  | .running _ => true
  | _ => false

def Worker.isAsleep : Worker → Bool
  | .asleep _ => true
  | _ => false

def Worker.wake : Worker → Worker
  | .asleep _ => .woken false
  | w => w

/-- A caller of `sstack_thread_pool_wait`. -/
inductive Waiter
  | out
  | asleep
  | woken
  | returned
  deriving DecidableEq, Repr

/-- It sleeps on `pool_waitcv` first and on `pool_busycv` then. -/
inductive Destroyer
  | notCalled
  | waitAsleep
  | waitWoken
  | busyAsleep
  | busyWoken
  | done
  deriving DecidableEq, Repr

/-- `poolWait` and `poolDestroy` are the bits of `pool_flags`; `poolActive` the threads on the
active list. The last two fields record the jobs as they were queued and as they were started. -/
structure Pool where
  poolHead : ℕ
  poolTail : ℕ
  jobs : ℕ → Job
  poolActive : List ℕ
  poolWait : Bool
  poolDestroy : Bool
  poolLinger : ℤ
  poolMinimum : ℤ
  poolMaximum : ℤ
  poolNthreads : ℤ
  poolIdle : ℤ
  workers : List Worker
  waiters : ℕ → Waiter
  destroyer : Destroyer
  queued : List Request
  started : List Request

def toInt (x : UInt32) : ℤ :=
  if x.toNat < 2147483648 then x.toNat else x.toNat - 4294967296

def sstackThreadPoolCreate (minThreads maxThreads linger : UInt32) : Option Pool :=
  if minThreads > maxThreads ∨ maxThreads < 1 then none
  else some
    { poolHead := 0
      poolTail := 0
      jobs := fun _ => ⟨0, 0, 0⟩
      poolActive := []
      poolWait := false
      poolDestroy := false
      poolLinger := toInt linger
      poolMinimum := toInt minThreads
      poolMaximum := toInt maxThreads
      poolNthreads := 0
      poolIdle := 0
      workers := []
      waiters := fun _ => .out
      destroyer := .notCalled
      queued := []
      started := [] }

namespace Pool

def setWorker (s : Pool) (w : ℕ) (st : Worker) : Pool :=
  { s with workers := s.workers.set w st }

def createWorker (s : Pool) : Pool :=
  { s with workers := s.workers ++ [.looping], poolNthreads := s.poolNthreads + 1 }

/-- `pthread_cond_signal` on `pool_workcv` wakes a sleeping worker if there is one. -/
def signalWork (s : Pool) : Option ℕ → Option Pool
  | some w => match s.workers[w]? with
    | some (.asleep _) => some (s.setWorker w (.woken false))
    | _ => none
  | none => if s.workers.any Worker.isAsleep then none else some s

def exitWorker (s : Pool) (w : ℕ) : Pool :=
  { s with workers := s.workers.set w .exited, poolNthreads := s.poolNthreads - 1 }

/-- `worker_cleanup`; `ok` is whether `create_worker` succeeds. -/
def workerCleanup (s : Pool) (w : ℕ) (ok : Bool) : Pool :=
  let s := s.exitWorker w
  if s.poolDestroy then
    if s.poolNthreads = 0 then
      { s with destroyer := if s.destroyer = .busyAsleep then .busyWoken else s.destroyer }
    else s
  else if s.poolHead ≠ 0 ∧ s.poolNthreads < s.poolMaximum ∧ ok then s.createWorker
  else s

def notifyWaiters (s : Pool) : Pool :=
  if s.poolHead = 0 ∧ s.poolActive = [] then
    { s with
      poolWait := false
      waiters := fun n => if s.waiters n = .asleep then .woken else s.waiters n
      destroyer := if s.destroyer = .waitAsleep then .waitWoken else s.destroyer }
  else s

def leaveActive (s : Pool) (w : ℕ) : Pool :=
  { s with workers := s.workers.set w .looping, poolActive := s.poolActive.erase w }

def jobCleanup (s : Pool) (w : ℕ) : Pool :=
  let s := s.leaveActive w
  if s.poolWait then s.notifyWaiters else s

/-- The worker takes the job at the head of the queue. -/
def takeJob (s : Pool) (w : ℕ) : Pool :=
  let job := s.poolHead
  { s.setWorker w (.running job) with
    poolHead := (s.jobs job).jobNext
    poolTail := if job = s.poolTail then 0 else s.poolTail
    poolActive := w :: s.poolActive
    started := s.started ++ [⟨job, (s.jobs job).jobFunc, (s.jobs job).jobArg⟩] }

def enterIdle (s : Pool) (w : ℕ) : Pool :=
  { s.setWorker w (.woken false) with poolIdle := s.poolIdle + 1 }

def leaveIdle (s : Pool) (w : ℕ) : Pool :=
  { s.setWorker w .looping with poolIdle := s.poolIdle - 1 }

def timeoutExit (s : Pool) (w : ℕ) (ok : Bool) : Pool :=
  let s := s.workerCleanup w ok
  s.setWorker w (.timedOut (s.workers.countP Worker.live))

/-- The body of `for (;;)` in `worker_thread` behind its wait loop; `again` is the next round. -/
def afterWait (again : Pool → Option Pool) (w : ℕ) (ok timedout : Bool) (s : Pool) :
    Option Pool :=
  let s := s.leaveIdle w
  if s.poolDestroy then some (s.workerCleanup w ok)
  else if s.poolHead ≠ 0 then some (s.takeJob w)
  else if timedout ∧ s.poolMinimum < s.poolNthreads then some (s.timeoutExit w ok)
  else again s

/-- The wait loop of `worker_thread`, up to where it sleeps or goes on. -/
def waitLoop (again : Pool → Option Pool) (w : ℕ) (ok : Bool) (s : Pool) : Option Pool :=
  if s.poolHead = 0 ∧ ¬ s.poolDestroy then
    if s.poolNthreads ≤ s.poolMinimum then some (s.setWorker w (.asleep false))
    else if s.poolLinger = 0 then afterWait again w ok true s
    else some (s.setWorker w (.asleep true))
  else afterWait again w ok false s

/-- Rounds of `for (;;)` in `worker_thread`, as many as the fuel allows. -/
def workerLoop (w : ℕ) (ok : Bool) : ℕ → Pool → Option Pool
  | 0, _ => none
  | fuel + 1, s =>
    let s := s.enterIdle w
    let s := if s.poolWait then s.notifyWaiters else s
    waitLoop (workerLoop w ok fuel) w ok s

/-- At the end of the queue. Writing through a null `pool_tail` would be a fault. -/
def append (s : Pool) (a func arg : ℕ) : Option Pool :=
  let jobs := update s.jobs a ⟨0, func, arg⟩
  if s.poolHead = 0 then
    some { s with
      jobs
      poolHead := a
      poolTail := a
      queued := s.queued ++ [⟨a, func, arg⟩] }
  else if s.poolTail = 0 then none
  else
    some { s with
      jobs := update jobs s.poolTail { jobs s.poolTail with jobNext := a }
      poolTail := a
      queued := s.queued ++ [⟨a, func, arg⟩] }

/-- The second half of `sstack_thread_pool_queue`: a worker is signalled or created. -/
def offer (s : Pool) (ok : Bool) (target : Option ℕ) : Option Pool :=
  if 0 < s.poolIdle then s.signalWork target
  else if s.poolNthreads < s.poolMaximum ∧ ok then some s.createWorker
  else some s

/-- `malloc` returned `a`, which is new: job structures are not freed while the pool is in use. -/
def sstackThreadPoolQueue (s : Pool) (a func arg : ℕ) (ok : Bool) (target : Option ℕ) :
    Option Pool :=
  if a = 0 ∨ a ∈ s.queued.map Request.job then none
  else (s.append a func arg).bind fun s => s.offer ok target

def waitRound (s : Pool) (n : ℕ) : Pool :=
  if s.poolHead ≠ 0 ∨ s.poolActive ≠ [] then
    { s with poolWait := true, waiters := update s.waiters n .asleep }
  else { s with waiters := update s.waiters n .returned }

def destroyBusyRound (s : Pool) : Pool :=
  { s with destroyer := if s.poolNthreads ≠ 0 then .busyAsleep else .done }

def destroyWaitRound (s : Pool) : Pool :=
  if s.poolActive ≠ [] then { s with poolWait := true, destroyer := .waitAsleep }
  else s.destroyBusyRound

/-- Cancelling a worker that runs a job makes it end like a `pthread_exit` in the job, which it may
do anyway. -/
def sstackThreadPoolDestroy (s : Pool) : Pool :=
  destroyWaitRound { s with poolDestroy := true, workers := s.workers.map Worker.wake }

end Pool

inductive Event
  | queue (a func arg : ℕ) (ok : Bool) (target : Option ℕ)
  | work (w : ℕ) (ok : Bool)
  | jobReturn (w : ℕ) (ok : Bool)
  | jobExit (w : ℕ) (ok : Bool)
  | timeout (w : ℕ)
  | spurious (w : ℕ)
  | wait (n : ℕ)
  | waitWork (n : ℕ)
  | waitSpurious (n : ℕ)
  | destroy
  | destroyWork
  | destroySpurious
  deriving DecidableEq, Repr

def Event.createOk : Event → Bool
  | .queue _ _ _ ok _ | .work _ ok | .jobReturn _ ok | .jobExit _ ok => ok
  | _ => true

/-- One section under `pool_mutex`, or a wakeup nobody sent. Nothing happens to a pool
that is gone. -/
def step (s : Pool) (e : Event) : Option Pool :=
  if s.destroyer = .done then none
  else match e with
  | .queue a func arg ok target => s.sstackThreadPoolQueue a func arg ok target
  | .work w ok => match s.workers[w]? with
    | some .looping => Pool.workerLoop w ok 2 s
    | some (.woken false) => Pool.waitLoop (Pool.workerLoop w ok 2) w ok s
    | some (.woken true) => Pool.afterWait (Pool.workerLoop w ok 2) w ok true s
    | _ => none
  | .jobReturn w ok => match s.workers[w]? with
    | some (.running _) => Pool.workerLoop w ok 2 (s.jobCleanup w)
    | _ => none
  | .jobExit w ok => match s.workers[w]? with
    | some (.running _) => some ((s.jobCleanup w).workerCleanup w ok)
    | _ => none
  | .timeout w => match s.workers[w]? with
    | some (.asleep true) => some (s.setWorker w (.woken true))
    | _ => none
  | .spurious w => match s.workers[w]? with
    | some (.asleep _) => some (s.setWorker w (.woken false))
    | _ => none
  | .wait n =>
    if s.waiters n = .out ∨ s.waiters n = .returned then some (s.waitRound n) else none
  | .waitWork n => if s.waiters n = .woken then some (s.waitRound n) else none
  | .waitSpurious n =>
    if s.waiters n = .asleep then
      some { s with waiters := update s.waiters n .woken } else none
  | .destroy => if s.destroyer = .notCalled then some s.sstackThreadPoolDestroy else none
  | .destroyWork => match s.destroyer with
    | .waitWoken => some s.destroyWaitRound
    | .busyWoken => some s.destroyBusyRound
    | _ => none
  | .destroySpurious => match s.destroyer with
    | .waitAsleep => some { s with destroyer := .waitWoken }
    | .busyAsleep => some { s with destroyer := .busyWoken }
    | _ => none

def poolSystem (p : Pool) : Lib.System Pool Event where
  init s := s = p
  step := step

/-- The runs in which the pool is not being destroyed. -/
def NotDestroyed (_ : Pool) (e : Event) : Prop := e ≠ .destroy

instance (s : Pool) (e : Event) : Decidable (NotDestroyed s e) :=
  inferInstanceAs (Decidable (e ≠ .destroy))

/-- Those of them in which `create_worker` always succeeds. -/
def CreateSucceeds (s : Pool) (e : Event) : Prop := NotDestroyed s e ∧ e.createOk = true

instance (s : Pool) (e : Event) : Decidable (CreateSucceeds s e) :=
  inferInstanceAs (Decidable (NotDestroyed s e ∧ e.createOk = true))

end SeamlessStack.ThreadPool

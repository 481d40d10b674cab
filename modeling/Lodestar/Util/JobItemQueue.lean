import Lodestar.Util.LinkedList

/-!
# Job queues

`JobItemQueue` of `util/queue/itemQueue.ts`. What the processor of the items
does, the timers and the clock are events of a run.
-/

namespace Lodestar.Util

inductive QueueType where
  | FIFO
  | LIFO
  deriving DecidableEq

inductive QueueErrorCode where
  | QUEUE_ABORTED
  | QUEUE_MAX_LENGTH
  deriving DecidableEq

/-- What a promise of a job is rejected with. -/
inductive JobError (ε : Type) where
  | queueError (code : QueueErrorCode)
  /-- `No head or tail`, thrown while the promise is made. -/
  | noHeadOrTail
  /-- Thrown by the processor or by the metrics. -/
  | thrown (error : ε)
  deriving DecidableEq

structure JobQueueOpts where
  maxLength : WithTop Nat
  maxConcurrency : WithTop Nat
  yieldEveryMs : Nat
  type : QueueType

/-- An item with its promise, which `resolve` and `reject` settle. -/
structure Job (α : Type) where
  args : α
  promise : Nat
  deriving DecidableEq

/-- `none` is pending. -/
abbrev JobPromise (ρ ε : Type) : Type := Option (Except (JobError ε) ρ)

structure JobItemQueue (α ρ ε : Type) where
  jobs : LinkedList (Job α)
  runningJobs : Nat
  lastYield : Nat
  aborted : Bool
  /-- The jobs of the calls of `runJob` that wait for the processor. -/
  processing : List (Job α)
  /-- The jobs of the calls of `runJob` that yield to the macro queue. -/
  yielding : List (Job α)
  /-- Calls of `runJob` that `setTimeout` has yet to make. -/
  scheduled : Nat
  promises : List (JobPromise ρ ε)

inductive QueueEvent (α ρ ε : Type) where
  | push (args : α)
  | dropAllJobs
  | abort
  /-- `setTimeout` calls `runJob`. -/
  | timeout
  /-- The processor resolves for the job of the promise, at a time. -/
  | processed (promise : Nat) (result : ρ) (now : Nat)
  /-- The processor, or a metric before it, throws for the job. -/
  | failed (promise : Nat) (error : ε)
  /-- The processor resolves, and the timer of the metrics throws. -/
  | timerThrew (promise : Nat) (result : ρ) (error : ε)
  /-- `sleep(0)` is over in the call of the job. -/
  | yielded (promise : Nat)

namespace JobItemQueue

variable {α ρ ε : Type}

def new : JobItemQueue α ρ ε where
  jobs := .empty
  runningJobs := 0
  lastYield := 0
  aborted := false
  processing := []
  yielding := []
  scheduled := 0
  promises := []

/-- A promise that is settled stays as it is. -/
def settle (promises : List (JobPromise ρ ε)) (promise : Nat) (outcome : Except (JobError ε) ρ) :
    List (JobPromise ρ ε) :=
  promises.modify promise fun settled => settled.or (some outcome)

variable (opts : JobQueueOpts)

/-- The job is pushed; its promise is the next one. -/
def addJob (this : JobItemQueue α ρ ε) (args : α) : JobItemQueue α ρ ε :=
  let promise := this.promises.length
  match this.jobs.push ⟨args, promise⟩ with
  | none => { this with promises := this.promises ++ [some (.error .noHeadOrTail)] }
  | some jobs => { this with
      jobs
      promises := this.promises ++ [none]
      scheduled := if (this.runningJobs : WithTop Nat) < opts.maxConcurrency then
        this.scheduled + 1 else this.scheduled }

def push (this : JobItemQueue α ρ ε) (args : α) :
    Except QueueErrorCode (JobItemQueue α ρ ε) :=
  if this.aborted then .error .QUEUE_ABORTED
  else if opts.maxLength < ((this.jobs.length + 1 : Nat) : WithTop Nat) then
    match opts.type with
    -- the oldest job is dropped
    | .LIFO => .ok ({ this with jobs := this.jobs.shift.2 }.addJob opts args)
    | .FIFO => .error .QUEUE_MAX_LENGTH
  else .ok (this.addJob opts args)

def dropAllJobs (this : JobItemQueue α ρ ε) : JobItemQueue α ρ ε :=
  { this with jobs := this.jobs.clear }

/-- The job that `runJob` takes: a LIFO queue has the latest one last. -/
def takeJob (jobs : LinkedList (Job α)) : Option (Job α) × LinkedList (Job α) :=
  match opts.type with
  | .LIFO => jobs.pop
  | .FIFO => jobs.shift

/-- `runJob` up to where it waits for the processor. -/
def runJob (this : JobItemQueue α ρ ε) : JobItemQueue α ρ ε :=
  if this.aborted ∨ opts.maxConcurrency ≤ (this.runningJobs : WithTop Nat) then this
  else
    match takeJob opts this.jobs with
    | (none, jobs) => { this with jobs }
    | (some job, jobs) => { this with
        jobs, runningJobs := this.runningJobs + 1, processing := this.processing ++ [job] }

/-- The loop of `abortAllJobs`, for as many jobs as there are. -/
def abortAllJobs : (fuel : Nat) → JobItemQueue α ρ ε → JobItemQueue α ρ ε
  | 0, this => this
  | fuel + 1, this =>
    if this.jobs.length > 0 then
      match this.jobs.pop with
      | (none, jobs) => abortAllJobs fuel { this with jobs }
      | (some job, jobs) => abortAllJobs fuel { this with
          jobs
          promises := settle this.promises job.promise (.error (.queueError .QUEUE_ABORTED)) }
    else this

/-- The end of `runJob`. -/
def finishJob (this : JobItemQueue α ρ ε) : JobItemQueue α ρ ε :=
  { this with runningJobs := this.runningJobs - 1 }.runJob opts

/-- The call of `runJob` of a job is no longer waiting for the processor. -/
def leaveProcessing (this : JobItemQueue α ρ ε) (promise : Nat) : JobItemQueue α ρ ε :=
  { this with processing := this.processing.filter (·.promise ≠ promise) }

def isProcessing (this : JobItemQueue α ρ ε) (promise : Nat) : Bool :=
  this.processing.any (·.promise = promise)

/-- `none` where the event cannot be. -/
def step (this : JobItemQueue α ρ ε) : QueueEvent α ρ ε → Option (JobItemQueue α ρ ε)
  | .push args =>
    match this.push opts args with
    | .error _ => some this
    | .ok this => some this
  | .dropAllJobs => some this.dropAllJobs
  | .abort => if this.aborted then some this else
      some ({ this with aborted := true }.abortAllJobs this.jobs.length)
  | .timeout => if this.scheduled = 0 then none else
      some ({ this with scheduled := this.scheduled - 1 }.runJob opts)
  | .processed promise result now => if !this.isProcessing promise then none else
      let settled := { this with promises := settle this.promises promise (.ok result) }
      if now - this.lastYield > opts.yieldEveryMs then
        some { settled.leaveProcessing promise with
          lastYield := now
          yielding := this.yielding ++ this.processing.filter (·.promise = promise) }
      else some ((settled.leaveProcessing promise).finishJob opts)
  | .failed promise error => if !this.isProcessing promise then none else
      some (({ this with
        promises := settle this.promises promise (.error (.thrown error)) }.leaveProcessing
          promise).finishJob opts)
  | .timerThrew promise result error => if !this.isProcessing promise then none else
      some (({ this with
        promises := settle (settle this.promises promise (.ok result)) promise
          (.error (.thrown error)) }.leaveProcessing promise).finishJob opts)
  | .yielded promise => if !this.yielding.any (·.promise = promise) then none else
      some ({ this with yielding := this.yielding.filter (·.promise ≠ promise) }.finishJob opts)

/-- The events of a run from a new queue, each of which meets a condition on the state before. -/
inductive Run (P : JobItemQueue α ρ ε → QueueEvent α ρ ε → Prop) :
    List (QueueEvent α ρ ε) → JobItemQueue α ρ ε → Prop where
  | start : Run P [] new
  | step {events : List (QueueEvent α ρ ε)} {this this' : JobItemQueue α ρ ε}
      {e : QueueEvent α ρ ε} : Run P events this → P this e → this.step opts e = some this' →
      Run P (events ++ [e]) this'

/-! ## Every job is accounted for -/

def waiting (this : JobItemQueue α ρ ε) : List (Job α) := this.jobs.toArray

def IsWaiting (this : JobItemQueue α ρ ε) (promise : Nat) : Prop :=
  ∃ job ∈ this.waiting, job.promise = promise

def IsRunning (this : JobItemQueue α ρ ε) (promise : Nat) : Prop :=
  ∃ job ∈ this.processing, job.promise = promise

def IsSettled (this : JobItemQueue α ρ ε) (promise : Nat) : Prop :=
  ∃ outcome, this.promises[promise]? = some (some outcome)

/-- Each promise is of a job that waits, of one that runs, or settled, and not two of these. -/
def Accounted (this : JobItemQueue α ρ ε) : Prop :=
  ∀ promise < this.promises.length,
    (this.IsWaiting promise ∧ ¬ this.IsRunning promise ∧ ¬ this.IsSettled promise) ∨
    (¬ this.IsWaiting promise ∧ this.IsRunning promise ∧ ¬ this.IsSettled promise) ∨
    (¬ this.IsWaiting promise ∧ ¬ this.IsRunning promise ∧ this.IsSettled promise)

/-- The outcome that an event has for the promise: that of the processor for its job. -/
def outcome (promise : Nat) : QueueEvent α ρ ε → Option (Except (JobError ε) ρ)
  | .processed of result _ => if of = promise then some (.ok result) else none
  | .failed of error => if of = promise then some (.error (.thrown error)) else none
  | .timerThrew of result _ => if of = promise then some (.ok result) else none
  | _ => none

/-- A promise is pending as long as its job has not ended, and settled by its one end, unless the
abort rejected it. -/
def SettledOnce (this : JobItemQueue α ρ ε) (events : List (QueueEvent α ρ ε)) : Prop :=
  ∀ promise, match this.promises[promise]? with
    | some (some settled) => events.filterMap (outcome promise) = [settled] ∨
        (events.filterMap (outcome promise) = [] ∧
          settled = .error (.queueError .QUEUE_ABORTED))
    | _ => events.filterMap (outcome promise) = []

/-- Some job runs, or a call of `runJob` will be made. -/
def IsGoing (this : JobItemQueue α ρ ε) : Prop :=
  this.processing ≠ [] ∨ this.yielding ≠ [] ∨ 0 < this.scheduled

/-- No job is dropped: a full LIFO queue gets no further job, and `dropAllJobs` finds none. -/
def KeepsJobs (this : JobItemQueue α ρ ε) : QueueEvent α ρ ε → Prop
  | .push _ => opts.type = .LIFO → this.jobs.length = 0 ∨
      ((this.jobs.length + 1 : Nat) : WithTop Nat) ≤ opts.maxLength
  | .dropAllJobs => this.jobs.length = 0
  | _ => True

end JobItemQueue

end Lodestar.Util

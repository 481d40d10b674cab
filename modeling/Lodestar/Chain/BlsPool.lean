import Lodestar.Chain.BlsVerifier
import Lodestar.Util.JobItemQueue

/-!
# The BLS worker pool

`BlsMultiThreadWorkerPool` of `chain/bls/multithread/index.ts`. The calls, the
timers, the workers and the abort are events of a run.
-/

namespace Lodestar.Chain

open Lodestar.Util (Job JobError)

def MAX_SIGNATURE_SETS_PER_JOB : Nat := 128
def MAX_BUFFERED_SIGS : Nat := 32

/-- A `JobQueueItem`, which `resolve` and `reject` settle. -/
abbrev BlsJob : Type := Job BlsWorkReq

abbrev BlsOutcome : Type := Except (JobError String) Bool

/-- `WorkerStatus`; a running worker has the package that its `runJob` awaits. -/
inductive WorkerStatus where
  | notInitialized
  | initializing
  | initializationError (error : String)
  | idle
  | running (jobs : List BlsJob)

structure BufferedJobs where
  jobs : List BlsJob
  sigCount : Nat
  timeout : Nat

/-- A call of `verifySignatureSets`. -/
structure VerifyCall (PublicKey : Type) where
  sets : List (ISignatureSet PublicKey)
  /-- The calls of `queueBlsWork`: rejected at once, or with a job. -/
  promises : List (Except (JobError String) BlsJob)
  /-- How the call ended before it awaited the promises. -/
  returned : Option BlsOutcome

structure BlsPool (PublicKey : Type) where
  aborted : Bool
  workers : List WorkerStatus
  jobs : List BlsJob
  bufferedJobs : Option BufferedJobs
  /-- The timeouts of `runBufferedJobs` that are set. -/
  timeouts : List Nat
  nextTimeout : Nat
  /-- Calls of `runJob` that `setTimeout` has yet to make. -/
  scheduled : Nat
  /-- The number of accepted jobs. -/
  nextJob : Nat
  /-- The calls of `resolve` and `reject`, in order. -/
  settlements : List (BlsJob × BlsOutcome)
  calls : List (VerifyCall PublicKey)

inductive BlsEvent (PublicKey : Type) where
  | verifySignatureSets (sets : List (ISignatureSet PublicKey)) (opts : VerifySignatureOpts)
  /-- The worker is spawned, or not. -/
  | initialized (worker : Nat)
  | failed (worker : Nat) (error : String)
  /-- `setTimeout` calls `runBufferedJobs`, or `runJob`. -/
  | bufferTimeout (timeout : Nat)
  | runJob
  /-- The worker sends its results, or the call of it rejects. -/
  | workerResult (worker : Nat) (results : List (Option WorkResult))
  | workerError (worker : Nat) (error : String)
  | abort

namespace WorkerStatus

def initializationError? : WorkerStatus → Option String
  | .initializationError error => some error
  | _ => none

def isIdle : WorkerStatus → Bool
  | .idle => true
  | _ => false

/-- The jobs in the package of the worker. -/
def package : WorkerStatus → List BlsJob
  | .running jobs => jobs
  | _ => []

end WorkerStatus

/-- What the result at the position of the job makes of it. -/
def jobOutcome (i : Nat) : Option WorkResult → BlsOutcome
  | none => .error (.thrown s!"No jobResult for index {i}")
  | some (.success result) => .ok result
  | some (.error error) => .error (.thrown error)

/-- "Un-wrap work package". -/
def unwrapPackage (jobs : List BlsJob) (results : List (Option WorkResult)) :
    List (BlsJob × BlsOutcome) :=
  jobs.zipIdx.map fun (job, i) => (job, jobOutcome i results[i]?.join)

/-- `prepareWork`: the package and the jobs that are left. -/
def prepareWork (totalSigs : Nat) : List BlsJob → List BlsJob × List BlsJob
  | [] => ([], [])
  | job :: jobs =>
    if totalSigs < MAX_SIGNATURE_SETS_PER_JOB then
      let (package, rest) := prepareWork (totalSigs + job.args.sets.length) jobs
      (job :: package, rest)
    else ([], job :: jobs)

/-- What a promise is rejected with at once. -/
def error? : Except (JobError String) BlsJob → Option (JobError String)
  | .error e => some e
  | .ok _ => none

def isOf (job : BlsJob) : Except (JobError String) BlsJob → Bool
  | .ok queued => queued.promise = job.promise
  | .error _ => false

/-- The rejection of a job that is among the promises. -/
def rejectionOf? (promises : List (Except (JobError String) BlsJob)) :
    BlsJob × BlsOutcome → Option (JobError String)
  | (job, .error e) => if promises.any (isOf job) then some e else none
  | (_, .ok _) => none

namespace BlsPool

variable {PublicKey Signature : Type}

/-- A pool whose workers are being initialized. -/
def new (poolSize : Nat) : BlsPool PublicKey where
  aborted := false
  workers := List.replicate poolSize .initializing
  jobs := []
  bufferedJobs := none
  timeouts := []
  nextTimeout := 0
  scheduled := 0
  nextJob := 0
  settlements := []
  calls := []

variable (this : BlsPool PublicKey)

def setWorker (worker : Nat) (status : WorkerStatus) : BlsPool PublicKey :=
  { this with workers := this.workers.set worker status }

def settle (settlements : List (BlsJob × BlsOutcome)) : BlsPool PublicKey :=
  { this with settlements := this.settlements ++ settlements }

def clearTimeout (timeout : Nat) : BlsPool PublicKey :=
  { this with timeouts := this.timeouts.filter (· ≠ timeout) }

/-- `setTimeout(this.runJob, 0)`. -/
def scheduleRunJob : BlsPool PublicKey := { this with scheduled := this.scheduled + 1 }

def runBufferedJobs : BlsPool PublicKey :=
  match this.bufferedJobs with
  | none => this
  | some buffered =>
    { this with jobs := this.jobs ++ buffered.jobs, bufferedJobs := none }.scheduleRunJob

/-- `bufferedJobs` with its timeout, as it is or made. -/
def openBuffer : BufferedJobs × BlsPool PublicKey :=
  match this.bufferedJobs with
  | some buffered => (buffered, this)
  | none => (⟨[], 0, this.nextTimeout⟩, { this with
      timeouts := this.timeouts ++ [this.nextTimeout], nextTimeout := this.nextTimeout + 1 })

def bufferJob (job : BlsJob) : BlsPool PublicKey :=
  let (buffered, this) := this.openBuffer
  let sigCount := buffered.sigCount + job.args.sets.length
  let this := { this with
    bufferedJobs := some { buffered with jobs := buffered.jobs ++ [job], sigCount } }
  if sigCount > MAX_BUFFERED_SIGS then (this.clearTimeout buffered.timeout).runBufferedJobs
  else this

/-- All workers failed to initialize: the error of the first. -/
def workersError? : Option String :=
  match this.workers with
  | [] => none
  | first :: rest =>
    if rest.all (·.initializationError?.isSome) then first.initializationError? else none

def queueBlsWork (workReq : BlsWorkReq) : Except (JobError String) (BlsJob × BlsPool PublicKey) :=
  if this.aborted then .error (.queueError .QUEUE_ABORTED)
  else
    match this.workersError? with
    | some error => .error (.thrown error)
    | none =>
      let job : BlsJob := ⟨workReq, this.nextJob⟩
      let this := { this with nextJob := this.nextJob + 1 }
      .ok (job, if workReq.opts.batchable then this.bufferJob job
        else { this with jobs := this.jobs ++ [job] }.scheduleRunJob)

section

variable (bls : Bls PublicKey Signature)

def serializeSet (set : ISignatureSet PublicKey) : Except String SerializedSet := do
  return ⟨bls.toBytes (← getAggregatedPubkey bls set), set.signingRoot, set.signature⟩

def deserializedSet (set : ISignatureSet PublicKey) :
    Except String (SignatureSetDeserialized PublicKey) := do
  return ⟨← getAggregatedPubkey bls set, set.signingRoot, set.signature⟩

/-- The calls of `queueBlsWork` for the chunks, up to one whose public keys do not aggregate. -/
def queueChunks (opts : VerifySignatureOpts) :
    List (List (ISignatureSet PublicKey)) → BlsPool PublicKey →
      List (Except (JobError String) BlsJob) × Option BlsOutcome × BlsPool PublicKey
  | [], this => ([], none, this)
  | setsWorker :: chunks, this =>
    match setsWorker.mapM (serializeSet bls) with
    | .error e => ([], some (.error (.thrown e)), this)
    | .ok sets =>
      match this.queueBlsWork ⟨opts, sets⟩ with
      | .error e =>
        let (promises, returned, this) := queueChunks opts chunks this
        (.error e :: promises, returned, this)
      | .ok (job, this) =>
        let (promises, returned, this) := queueChunks opts chunks this
        (.ok job :: promises, returned, this)

/-- `verifySignatureSets` up to where it awaits the promises. -/
def verifySignatureSets (blsVerifyAllMultiThread : Bool) (sets : List (ISignatureSet PublicKey))
    (opts : VerifySignatureOpts) : BlsPool PublicKey :=
  if opts.verifyOnMainThread && !blsVerifyAllMultiThread then
    let isValid := sets.mapM (deserializedSet bls) >>= verifySignatureSetsMaybeBatch bls
    { this with calls := this.calls ++ [⟨sets, [], some (isValid.mapError .thrown)⟩] }
  else
    let (promises, returned, this) :=
      queueChunks bls opts (chunkifyMaximizeChunkSize sets MAX_SIGNATURE_SETS_PER_JOB) this
    { this with calls := this.calls ++ [⟨sets, promises, returned⟩] }

end

/-- `runJob` up to where it awaits the worker. -/
def runJob : BlsPool PublicKey :=
  if this.aborted then this
  else
    match this.workers.findIdx? (·.isIdle) with
    | none => this
    | some worker =>
      let (package, jobs) := prepareWork 0 this.jobs
      if package.length = 0 then this
      else { this with jobs }.setWorker worker (.running package)

/-- The end of `runJob` of a worker. -/
def finishJob (worker : Nat) (settlements : List (BlsJob × BlsOutcome)) : BlsPool PublicKey :=
  ((this.settle settlements).setWorker worker .idle).scheduleRunJob

def abortAllJobs : BlsPool PublicKey :=
  { this with jobs := [] }.settle
    (this.jobs.map fun job => (job, .error (.queueError .QUEUE_ABORTED)))

/-- The listener of the signal; the workers are terminated. -/
def abort : BlsPool PublicKey :=
  let this := { this with aborted := true }.abortAllJobs
  match this.bufferedJobs with
  | none => this
  | some buffered => this.clearTimeout buffered.timeout

/-- `none` where the event cannot be. -/
def step (bls : Bls PublicKey Signature) (blsVerifyAllMultiThread : Bool) :
    BlsEvent PublicKey → Option (BlsPool PublicKey)
  | .verifySignatureSets sets opts =>
    some (this.verifySignatureSets bls blsVerifyAllMultiThread sets opts)
  | .initialized worker =>
    match this.workers[worker]? with
    | some .initializing => some (this.setWorker worker .idle).scheduleRunJob
    | _ => none
  | .failed worker error =>
    match this.workers[worker]? with
    | some .initializing => some (this.setWorker worker (.initializationError error))
    | _ => none
  | .bufferTimeout timeout => if timeout ∈ this.timeouts then
      some (this.clearTimeout timeout).runBufferedJobs else none
  | .runJob => if this.scheduled = 0 then none else
      some { this with scheduled := this.scheduled - 1 }.runJob
  | .workerResult worker results =>
    match this.workers[worker]? with
    | some (.running jobs) => some (this.finishJob worker (unwrapPackage jobs results))
    | _ => none
  | .workerError worker error =>
    match this.workers[worker]? with
    | some (.running jobs) =>
      some (this.finishJob worker (jobs.map fun job => (job, .error (.thrown error))))
    | _ => none
  | .abort => if this.aborted then none else some this.abort

/-! ## Results -/

/-- The first call of `resolve` or `reject` settles the promise of a job. -/
def outcome? (job : BlsJob) : Option BlsOutcome :=
  (this.settlements.find? (·.1.promise = job.promise)).map (·.2)

/-- The value of a promise of `queueBlsWork` that is resolved. -/
def value? : Except (JobError String) BlsJob → Option Bool
  | .error _ => none
  | .ok job =>
    match this.outcome? job with
    | some (.ok isValid) => some isValid
    | _ => none

/-- `Promise.all`: the first rejection, or all values. -/
def promiseAll (promises : List (Except (JobError String) BlsJob)) :
    Option (Except (JobError String) (List Bool)) :=
  match (promises.findSome? error?).or (this.settlements.findSome? (rejectionOf? promises)) with
  | some e => some (.error e)
  | none => (promises.mapM this.value?).map .ok

/-- What the call resolves to or rejects with, once it does. -/
def result? (call : VerifyCall PublicKey) : Option BlsOutcome :=
  call.returned.or <| (this.promiseAll call.promises).map fun results => do
    let results ← results
    if results.length = 0 then throw (.thrown "Empty results array")
    else return results.all (· = true)

end BlsPool

end Lodestar.Chain

import Lodestar.Base.OrderedMap
import Lodestar.Sync.Batch

/-!
# A chain of batches

`sync/range/chain.ts`. The calls on a `SyncChain` and the continuations of what
it awaits run one after the other, in any order; each is one step here. Batches
are objects that downloads and the main loop hold on to after the map has
dropped them, so they are kept apart from the map.
-/

namespace Lodestar.Sync

open Lodestar.Base Lodestar.StateTransition

inductive SyncChainStatus where
  | Stopped
  | Syncing
  | Synced
  | Error
  deriving DecidableEq

inductive PeerAction where
  | LowToleranceError
  | MidToleranceError
  deriving DecidableEq

/-- What ends the main loop with an error. -/
inductive ChainError where
  | aborted
  | batch (error : BatchError)
  | other (message : String)
  deriving DecidableEq

/-- Where the loop of `sync` is. -/
inductive SyncLoop where
  /-- At `next()` of the trigger. -/
  | waiting
  /-- Triggered, before the body runs. -/
  | resumed
  /-- At the `await` of `processBatch`. -/
  | processing (batch : Nat) (blocks : List SignedBeaconBlock)
  /-- An error was thrown. -/
  | failed (error : ChainError)
  /-- After the `break`. -/
  | left
  | ended
  deriving DecidableEq

structure SyncChain where
  epochsPerBatch : Nat
  target : ChainTarget
  validatedEpochs : Nat
  startEpoch : Nat
  status : SyncChainStatus
  /-- `batchProcessor`: its flag and its error. -/
  triggered : Bool
  error : Option ChainError
  loop : SyncLoop
  /-- Every batch made so far, by a number of its own. -/
  objects : Nat → Batch
  nextId : Nat
  /-- The values of the map of batches, whose keys are their start epochs. -/
  batches : List Nat
  peerset : OrderedMap PeerId ChainTarget
  /-- The batches whose download is awaited. -/
  downloads : List Nat
  /-- Every error a batch has thrown. -/
  thrown : List BatchError
  reports : List (PeerId × PeerAction × String)

/-- A call on a chain, with the chain as it leaves it. -/
abbrev ChainResult := EStateM.Result BatchError SyncChain Unit

namespace SyncChain

variable [Preset]

def new (startEpoch : Nat) (initialTarget : ChainTarget) (epochsPerBatch : Nat) : SyncChain where
  epochsPerBatch
  target := initialTarget
  validatedEpochs := 0
  startEpoch
  status := .Stopped
  triggered := false
  error := none
  loop := .waiting
  objects _ := .new startEpoch epochsPerBatch
  nextId := 0
  batches := []
  peerset := .empty
  downloads := []
  thrown := []
  reports := []

variable (this : SyncChain)

def toArr : List Batch := this.batches.map this.objects

/-- The chain after a call on one of its batches. -/
def afterCall {α : Type} (id : Nat) : BatchResult α → SyncChain
  | .ok _ batch => { this with objects := Function.update this.objects id batch }
  | .error e batch =>
    { this with
      objects := Function.update this.objects id batch
      thrown := this.thrown ++ [e] }

/-- `batchProcessor.end(err)`. -/
def endProcessor (error : ChainError) : SyncChain := { this with error := some error }

def triggerBatchProcessor : SyncChain := { this with triggered := true }

/-! ## Downloads -/

/-- `sendBatch` up to its `await`. Batches that are sent await download, so the `catch` block,
which would request batches once more, is not reached. -/
def sendBatch (id : Nat) (peer : PeerId) : SyncChain :=
  let result := (this.objects id).startDownloading peer
  match result with
  | .ok _ _ =>
    let this := this.afterCall id result
    { this with downloads := this.downloads ++ [id] }
  | .error e _ => (this.afterCall id result).endProcessor (.batch e)

/-- The new batch and its number, if one is required. -/
def includeNextBatch : Option (Nat × SyncChain) :=
  let batches := this.toArr
  let batchesInBuffer := batches.filter fun batch =>
    batch.status = .Downloading || batch.status = .AwaitingProcessing
  if BATCH_BUFFER_SIZE < batchesInBuffer.length then none
  else
    let startEpoch := toBeDownloadedStartEpoch batches this.startEpoch this.epochsPerBatch
    let toBeDownloadedSlot := computeStartSlotAtEpoch startEpoch + BATCH_SLOT_OFFSET
    if this.target.slot < toBeDownloadedSlot then none
    else if batches.any (·.startEpoch = startEpoch) then none
    else some (this.nextId,
      { this with
        objects :=
          Function.update this.objects this.nextId (.new startEpoch this.epochsPerBatch)
        nextId := this.nextId + 1
        batches := this.batches ++ [this.nextId] })

/-- Retries the download of one existing batch. -/
def retryBatch (peerBalancer : ChainPeersBalancer) (id : Nat) : SyncChain :=
  if (this.objects id).status ≠ .AwaitingDownload then this
  else
    match peerBalancer.bestPeerToRetryBatch (this.objects id) with
    | none => this
    | some peer => this.sendBatch id peer

/-- Requests new batches from idle peers. -/
def requestNewBatches : List PeerId → SyncChain → SyncChain
  | [], this => this
  | peer :: peers, this =>
    match this.includeNextBatch with
    | none => this
    | some (id, this) => requestNewBatches peers (this.sendBatch id peer)

/-- `triggerBatchDownloader`, with the peers as `ChainPeersBalancer` shuffles them. -/
def requestBatches (peers : List PeerId) : SyncChain :=
  if this.status ≠ .Syncing then this
  else
    let peerBalancer := ChainPeersBalancer.new peers this.toArr
    let this := this.batches.foldl (fun this id => this.retryBatch peerBalancer id) this
    requestNewBatches peerBalancer.idlePeers this

/-! ## Advancing -/

/-- The reports on attempts that the last one has proved wrong. -/
def wrongAttempts (batch : Batch) (attemptOk : Attempt) : List (PeerId × PeerAction × String) :=
  (batch.failedProcessingAttempts.filter (·.hash ≠ attemptOk.hash)).map fun attempt =>
    if attemptOk.peer = attempt.peer then
      (attempt.peer, .MidToleranceError, "SyncChainInvalidBatchSelf")
    else (attempt.peer, .LowToleranceError, "SyncChainInvalidBatchOther")

/-- The loop of `advanceChain` over the entries of the map. -/
def dropBatches (newStartEpoch : Nat) : List Nat → SyncChain → ChainResult
  | [], this => .ok () this
  | id :: ids, this =>
    let batch := this.objects id
    if batch.startEpoch < newStartEpoch then
      let this := { this with
        batches := this.batches.filter (· ≠ id)
        validatedEpochs := this.validatedEpochs + EPOCHS_PER_BATCH }
      let result := batch.validationSuccess
      match result with
      | .ok attemptOk _ =>
        let this := this.afterCall id result
        dropBatches newStartEpoch ids
          { this with reports := this.reports ++ wrongAttempts batch attemptOk }
      | .error e _ => .error e (this.afterCall id result)
    else dropBatches newStartEpoch ids this

/-- Drops any batches previous to `newStartEpoch`. -/
def advanceChain (newStartEpoch : Nat) : ChainResult :=
  if newStartEpoch ≤ this.startEpoch then .ok () this
  else
    match dropBatches newStartEpoch this.batches this with
    | .ok _ this => .ok () { this with startEpoch := newStartEpoch }
    | .error e this => .error e this

/-- The epoch `startSyncing` advances to. For an epoch before the start of the chain it is the
start, where the source has an earlier one; neither advances the chain. -/
def alignedEpoch (localFinalizedEpoch : Nat) : Nat :=
  this.startEpoch
    + (localFinalizedEpoch - this.startEpoch) / EPOCHS_PER_BATCH * EPOCHS_PER_BATCH

/-! ## Calls -/

/-- An ended chain throws a `SyncChainStartError`; an error of a batch is thrown too. -/
def startSyncing (localFinalizedEpoch : Nat) (peers : List PeerId) : SyncChain :=
  match this.status with
  | .Stopped =>
    let this := { this with status := .Syncing }
    match this.advanceChain (this.alignedEpoch localFinalizedEpoch) with
    | .ok _ this => (this.requestBatches peers).triggerBatchProcessor
    | .error _ this => this
  | _ => this

def stopSyncing : SyncChain := { this with status := .Stopped }

def remove : SyncChain := this.endProcessor .aborted

def computeTarget : SyncChain :=
  match computeMostCommonTarget this.peerset.values with
  | .ok target => { this with target }
  | .error _ => this

def addPeer (peer : PeerId) (target : ChainTarget) (peers : List PeerId) : SyncChain :=
  let this := { this with peerset := this.peerset.set peer target }
  this.computeTarget.requestBatches peers

def removePeer (peer : PeerId) : SyncChain :=
  let this := { this with peerset := this.peerset.delete peer }
  this.computeTarget

/-! ## Continuations -/

/-- `sendBatch` after its `await`, with the two shuffles of the peers. -/
def downloaded (id : Nat) (result : BatchResult Unit) (trigger : Bool)
    (peers₁ peers₂ : List PeerId) : SyncChain :=
  let this := { this with downloads := this.downloads.erase id }
  match result with
  | .ok _ _ =>
    let this := this.afterCall id result
    let this := if trigger then this.triggerBatchProcessor else this
    (this.requestBatches peers₁).requestBatches peers₂
  | .error e _ => ((this.afterCall id result).endProcessor (.batch e)).requestBatches peers₂

/-- `next()` of the trigger. -/
def next : SyncChain :=
  match this.error with
  | some error => { this with loop := .failed error }
  | none => { this with triggered := false, loop := .resumed }

/-- The batch that is ready to be processed, if only batches to be validated are before it. -/
def getNextBatchToProcess : List Nat → Option Nat
  | [] => none
  | id :: ids =>
    match (this.objects id).status with
    | .AwaitingValidation => getNextBatchToProcess ids
    | .AwaitingProcessing => some id
    | _ => none

/-- The body of the loop of `sync`, up to the `await` of `processBatch`. -/
def iterate : SyncChain :=
  if this.status ≠ .Syncing then { this with loop := .waiting }
  else
    match validateBatchesStatus this.toArr with
    | .error message => { this with loop := .failed (.other message) }
    | .ok _ =>
      let toBeProcessedEpoch :=
        toBeProcessedStartEpoch this.toArr this.startEpoch this.epochsPerBatch
      if this.target.slot ≤ computeStartSlotAtEpoch toBeProcessedEpoch then
        { this with loop := .left }
      else
        match this.getNextBatchToProcess this.batches with
        | none => { this with loop := .waiting }
        | some id =>
          let result := (this.objects id).startProcessing
          match result with
          | .ok blocks _ => { this.afterCall id result with loop := .processing id blocks }
          | .error e _ => { this.afterCall id result with loop := .failed (.batch e) }

/-- `processBatch` after blocks were processed. -/
def processed (id : Nat) (blocks : List SignedBeaconBlock) (peers : List PeerId) : SyncChain :=
  let result := (this.objects id).processingSuccess
  let this := { this.afterCall id result with loop := .waiting }
  match result with
  | .error e _ => { this with loop := .failed (.batch e) }
  | .ok _ _ =>
    let advanced : ChainResult :=
      if 0 < blocks.length then this.advanceChain (this.objects id).startEpoch else .ok () this
    match advanced with
    | .error e this => { this with loop := .failed (.batch e) }
    | .ok _ this => this.triggerBatchProcessor.requestBatches peers

/-- The loop over the batches before one that could not be processed. -/
def failPending (startEpoch : Nat) (err : ProcessingError) : List Nat → SyncChain → ChainResult
  | [], this => .ok () this
  | id :: ids, this =>
    if (this.objects id).startEpoch < startEpoch then
      let result := (this.objects id).validationError err
      match result with
      | .ok _ _ => failPending startEpoch err ids (this.afterCall id result)
      | .error e _ => .error e (this.afterCall id result)
    else failPending startEpoch err ids this

/-- `processBatch` after an error. -/
def processingFailed (id : Nat) (err : ProcessingError) (peers : List PeerId) : SyncChain :=
  let result := (this.objects id).processingError err
  let this := { this.afterCall id result with loop := .waiting }
  match result with
  | .error e _ => { this with loop := .failed (.batch e) }
  | .ok _ _ =>
    let advanced : ChainResult :=
      if 0 < err.importedBlocks then this.advanceChain (this.objects id).startEpoch
      else .ok () this
    match advanced with
    | .error e this => { this with loop := .failed (.batch e) }
    | .ok _ this =>
      match failPending (this.objects id).startEpoch err this.batches this with
      | .error e this => { this with loop := .failed (.batch e) }
      | .ok _ this => this.requestBatches peers

def shouldReportPeerOnBatchError : BatchErrorType → Option (PeerAction × String)
  | .MAX_PROCESSING_ATTEMPTS => some (.LowToleranceError, "SyncChainMaxProcessingAttempts")
  | .WRONG_STATUS _ | .MAX_DOWNLOAD_ATTEMPTS | .MAX_EXECUTION_ENGINE_ERROR_ATTEMPTS => none

/-- The `catch` block of `sync`. -/
def caught (error : ChainError) : SyncChain :=
  match error with
  | .aborted => { this with loop := .ended }
  | .batch e =>
    { this with
      status := .Error
      loop := .ended
      reports := this.reports ++
        match shouldReportPeerOnBatchError e.type with
        | some report => this.peerset.keys.map fun peer => (peer, report)
        | none => [] }
  | .other _ => { this with status := .Error, loop := .ended }

/-! ## Runs -/

inductive Event where
  | addPeer (peer : PeerId) (target : ChainTarget) (peers : List PeerId)
  | removePeer (peer : PeerId)
  | startSyncing (localFinalizedEpoch : Nat) (peers : List PeerId)
  | stopSyncing
  | remove
  | downloadingSuccess (id : Nat) (blocks : List SignedBeaconBlock) (peers₁ peers₂ : List PeerId)
  | downloadingError (id : Nat) (peers₁ peers₂ : List PeerId)
  | next
  | iterate
  | processingSuccess (peers : List PeerId)
  | processingError (err : ProcessingError) (peers : List PeerId)
  | caught
  /-- The end of `sync` after its loop. -/
  | finished

/-- Peers are shuffled; a continuation runs once what it awaits is there. -/
def Enabled : Event → Prop
  | .addPeer peer target peers => peers.Perm (this.peerset.set peer target).keys
  | .removePeer _ => True
  | .startSyncing _ peers => peers.Perm this.peerset.keys
  | .stopSyncing => True
  | .remove => True
  | .downloadingSuccess id _ peers₁ peers₂ | .downloadingError id peers₁ peers₂ =>
    id ∈ this.downloads ∧ peers₁.Perm this.peerset.keys ∧ peers₂.Perm this.peerset.keys
  | .next => this.loop = .waiting ∧ (this.error.isSome ∨ this.triggered = true)
  | .iterate => this.loop = .resumed
  | .processingSuccess peers | .processingError _ peers =>
    (∃ id blocks, this.loop = .processing id blocks) ∧ peers.Perm this.peerset.keys
  | .caught => ∃ error, this.loop = .failed error
  | .finished => this.loop = .left

def apply : Event → SyncChain
  | .addPeer peer target peers => this.addPeer peer target peers
  | .removePeer peer => this.removePeer peer
  | .startSyncing localFinalizedEpoch peers => this.startSyncing localFinalizedEpoch peers
  | .stopSyncing => this.stopSyncing
  | .remove => this.remove
  | .downloadingSuccess id blocks peers₁ peers₂ =>
    this.downloaded id ((this.objects id).downloadingSuccess blocks) true peers₁ peers₂
  | .downloadingError id peers₁ peers₂ =>
    this.downloaded id (this.objects id).downloadingError false peers₁ peers₂
  | .next => this.next
  | .iterate => this.iterate
  | .processingSuccess peers =>
    match this.loop with
    | .processing id blocks => this.processed id blocks peers
    | _ => this
  | .processingError err peers =>
    match this.loop with
    | .processing id _ => this.processingFailed id err peers
    | _ => this
  | .caught =>
    match this.loop with
    | .failed error => this.caught error
    | _ => this
  | .finished => { this with status := .Synced, loop := .ended }

/-- The states a chain goes through, event by event, when every step meets `condition`. -/
inductive Run (condition : SyncChain → Event → Prop) (initial : SyncChain) :
    List Event → SyncChain → Prop
  | nil : Run condition initial [] initial
  | concat {events : List Event} {this : SyncChain} (event : Event)
      (run : Run condition initial events this) (enabled : this.Enabled event)
      (meets : condition this event) : Run condition initial (events ++ [event]) (this.apply event)

end SyncChain

end Lodestar.Sync

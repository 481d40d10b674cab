import Lodestar.ReqResp.BlocksByRange

/-!
# Batches of range sync

`sync/range/batch.ts` and `sync/range/utils`: a batch goes from download to
validation, and each of its methods throws unless the batch has the status it
is for.
-/

namespace Lodestar.Sync

open Lodestar.StateTransition Lodestar.ReqResp

/-! ## Constants -/

def MAX_BATCH_DOWNLOAD_ATTEMPTS : Nat := 5
def MAX_BATCH_PROCESSING_ATTEMPTS : Nat := 3

/-- Batch range excludes the first block of the epoch. -/
def BATCH_SLOT_OFFSET : Nat := 1

def EPOCHS_PER_BATCH : Nat := 2
def BATCH_BUFFER_SIZE : Nat := 5

/-! ## Batches -/

/-- The base58 string of a peer, which tells peers apart. -/
abbrev PeerId := Nat

/-- A signed block, known by its `hashTreeRoot`. -/
abbrev SignedBeaconBlock := Root

/-- `Attempt`; the hash is that of `hashBlocks`, the roots of the blocks one after the other. -/
structure Attempt where
  peer : PeerId
  hash : List Root
  deriving DecidableEq

inductive BatchStatus where
  | AwaitingDownload
  | Downloading
  | AwaitingProcessing
  | Processing
  | AwaitingValidation
  deriving DecidableEq

inductive BatchState where
  | AwaitingDownload
  | Downloading (peer : PeerId)
  | AwaitingProcessing (peer : PeerId) (blocks : List SignedBeaconBlock)
  | Processing (attempt : Attempt)
  | AwaitingValidation (attempt : Attempt)
  deriving DecidableEq

def BatchState.status : BatchState → BatchStatus
  | AwaitingDownload => .AwaitingDownload
  | Downloading _ => .Downloading
  | AwaitingProcessing _ _ => .AwaitingProcessing
  | Processing _ => .Processing
  | AwaitingValidation _ => .AwaitingValidation

structure Batch where
  startEpoch : Nat
  state : BatchState
  request : BeaconBlocksByRangeRequest
  failedProcessingAttempts : List Attempt
  executionErrorAttempts : List Attempt
  failedDownloadAttempts : List PeerId

inductive BatchErrorType where
  | WRONG_STATUS (expectedStatus : BatchStatus)
  | MAX_DOWNLOAD_ATTEMPTS
  | MAX_PROCESSING_ATTEMPTS
  | MAX_EXECUTION_ENGINE_ERROR_ATTEMPTS
  deriving DecidableEq

structure BatchError where
  type : BatchErrorType
  startEpoch : Nat
  status : BatchStatus
  deriving DecidableEq

/-- What `processChainSegment` rejects with. -/
inductive ProcessingError where
  /-- A `ChainSegmentError`; its code is `EXECUTION_ENGINE_ERROR` or another. -/
  | chainSegment (executionEngineError : Bool) (importedBlocks : Nat)
  | other
  deriving DecidableEq

/-- `err instanceof ChainSegmentError && err.type.code === EXECUTION_ENGINE_ERROR`. -/
def ProcessingError.isExecutionEngineError : ProcessingError → Bool
  | chainSegment executionEngineError _ => executionEngineError
  | other => false

/-- The blocks imported before the error, as far as it says. -/
def ProcessingError.importedBlocks : ProcessingError → Nat
  | chainSegment _ importedBlocks => importedBlocks
  | other => 0

/-- A call on a batch, with the batch as it leaves it. -/
abbrev BatchResult (α : Type) := EStateM.Result BatchError Batch α

namespace Batch

variable [Preset]

def new (startEpoch epochsPerBatch : Nat) : Batch :=
  let startSlot := computeStartSlotAtEpoch startEpoch + BATCH_SLOT_OFFSET
  let endSlot := startSlot + epochsPerBatch * SLOTS_PER_EPOCH
  { startEpoch
    state := .AwaitingDownload
    request :=
      { startSlot
        count := endSlot - startSlot
        step := 1 }
    failedProcessingAttempts := []
    executionErrorAttempts := []
    failedDownloadAttempts := [] }

omit [Preset]

variable (this : Batch)

def status : BatchStatus := this.state.status

def getFailedPeers : List PeerId :=
  this.failedDownloadAttempts ++ this.failedProcessingAttempts.map (·.peer)

def errorType (type : BatchErrorType) : BatchError :=
  ⟨type, this.startEpoch, this.status⟩

def wrongStatusErrorType (expectedStatus : BatchStatus) : BatchError :=
  this.errorType (.WRONG_STATUS expectedStatus)

def startDownloading (peer : PeerId) : BatchResult Unit :=
  match this.state with
  | .AwaitingDownload => .ok () { this with state := .Downloading peer }
  | _ => .error (this.wrongStatusErrorType .AwaitingDownload) this

def downloadingSuccess (blocks : List SignedBeaconBlock) : BatchResult Unit :=
  match this.state with
  | .Downloading peer => .ok () { this with state := .AwaitingProcessing peer blocks }
  | _ => .error (this.wrongStatusErrorType .Downloading) this

def downloadingError : BatchResult Unit :=
  match this.state with
  | .Downloading peer =>
    let this := { this with failedDownloadAttempts := this.failedDownloadAttempts ++ [peer] }
    if MAX_BATCH_DOWNLOAD_ATTEMPTS < this.failedDownloadAttempts.length then
      .error (this.errorType .MAX_DOWNLOAD_ATTEMPTS) this
    else .ok () { this with state := .AwaitingDownload }
  | _ => .error (this.wrongStatusErrorType .Downloading) this

def startProcessing : BatchResult (List SignedBeaconBlock) :=
  match this.state with
  | .AwaitingProcessing peer blocks =>
    .ok blocks { this with state := .Processing ⟨peer, blocks⟩ }
  | _ => .error (this.wrongStatusErrorType .AwaitingProcessing) this

def processingSuccess : BatchResult Unit :=
  match this.state with
  | .Processing attempt => .ok () { this with state := .AwaitingValidation attempt }
  | _ => .error (this.wrongStatusErrorType .Processing) this

def onExecutionEngineError (attempt : Attempt) : BatchResult Unit :=
  let this := { this with executionErrorAttempts := this.executionErrorAttempts ++ [attempt] }
  if MAX_BATCH_PROCESSING_ATTEMPTS < this.executionErrorAttempts.length then
    .error (this.errorType .MAX_EXECUTION_ENGINE_ERROR_ATTEMPTS) this
  else .ok () { this with state := .AwaitingDownload }

def onProcessingError (attempt : Attempt) : BatchResult Unit :=
  let this := { this with failedProcessingAttempts := this.failedProcessingAttempts ++ [attempt] }
  if MAX_BATCH_PROCESSING_ATTEMPTS < this.failedProcessingAttempts.length then
    .error (this.errorType .MAX_PROCESSING_ATTEMPTS) this
  else .ok () { this with state := .AwaitingDownload }

/-- The failed attempt of a batch that was being processed or was to be validated. -/
def onError (err : ProcessingError) (attempt : Attempt) : BatchResult Unit :=
  if err.isExecutionEngineError then this.onExecutionEngineError attempt
  else this.onProcessingError attempt

def processingError (err : ProcessingError) : BatchResult Unit :=
  match this.state with
  | .Processing attempt => this.onError err attempt
  | _ => .error (this.wrongStatusErrorType .Processing) this

def validationError (err : ProcessingError) : BatchResult Unit :=
  match this.state with
  | .AwaitingValidation attempt => this.onError err attempt
  | _ => .error (this.wrongStatusErrorType .AwaitingValidation) this

def validationSuccess : BatchResult Attempt :=
  match this.state with
  | .AwaitingValidation attempt => .ok attempt this
  | _ => .error (this.wrongStatusErrorType .AwaitingValidation) this

end Batch

/-! ## Lists of batches -/

/-- The loop of `validateBatchesStatus`, with its two counters. -/
def validateStatuses : List BatchStatus → (processing preProcessing : Nat) → Except String Unit
  | [], _, _ => .ok ()
  | .AwaitingValidation :: statuses, processing, preProcessing =>
    if 0 < processing then .error "AwaitingValidation state found after Processing"
    else if 0 < preProcessing then .error "AwaitingValidation state found after PreProcessing"
    else validateStatuses statuses processing preProcessing
  | .Processing :: statuses, processing, preProcessing =>
    if 0 < preProcessing then .error "Processing state found after PreProcessing"
    else if 0 < processing then .error "More than one Processing state found"
    else validateStatuses statuses (processing + 1) preProcessing
  | .AwaitingDownload :: statuses, processing, preProcessing
  | .Downloading :: statuses, processing, preProcessing
  | .AwaitingProcessing :: statuses, processing, preProcessing =>
    validateStatuses statuses processing (preProcessing + 1)

def validateBatchesStatus (batches : List Batch) : Except String Unit :=
  validateStatuses (batches.map (·.status)) 0 0

def toBeProcessedStartEpoch (batches : List Batch) (startEpoch epochsPerBatch : Nat) : Nat :=
  match batches.reverse.find? (·.status = .AwaitingValidation) with
  | some lastAwaitingValidation => lastAwaitingValidation.startEpoch + epochsPerBatch
  | none => startEpoch

def toBeDownloadedStartEpoch (batches : List Batch) (startEpoch epochsPerBatch : Nat) : Nat :=
  match batches.getLast? with
  | some lastBatch => lastBatch.startEpoch + epochsPerBatch
  | none => startEpoch

/-! ## Peers of a chain -/

structure ChainTarget where
  slot : Nat
  root : Root
  deriving DecidableEq

/-- The loop of `computeMostCommonTarget` over the targets after `seen`. -/
def mostCommonTarget : List ChainTarget → (seen : List ChainTarget) → ChainTarget → Nat → ChainTarget
  | [], _, mostCommonTarget, _ => mostCommonTarget
  | target :: targets, seen, mostCommon, mostCommonCount =>
    let count := 1 + seen.count target
    if mostCommonCount < count then mostCommonTarget targets (seen ++ [target]) target count
    else mostCommonTarget targets (seen ++ [target]) mostCommon mostCommonCount

def computeMostCommonTarget : List ChainTarget → Except String ChainTarget
  | [] => .error "Must provide at least one target"
  | target :: targets => .ok (mostCommonTarget (target :: targets) [] target 0)

/-- `peers` are shuffled. -/
structure ChainPeersBalancer where
  peers : List PeerId
  activeRequestsByPeer : PeerId → Nat

namespace ChainPeersBalancer

def new (peers : List PeerId) (batches : List Batch) : ChainPeersBalancer where
  peers
  activeRequestsByPeer peer := batches.countP (·.state = .Downloading peer)

variable (this : ChainPeersBalancer)

/-- The first peer by `sortBy`, peers without a failed request first, then the least busy. -/
def bestPeerToRetryBatch (batch : Batch) : Option PeerId :=
  let failed (peer : PeerId) : Nat := if peer ∈ batch.getFailedPeers then 1 else 0
  (this.peers.mergeSort fun a b =>
    failed a < failed b
      || (failed a == failed b && this.activeRequestsByPeer a ≤ this.activeRequestsByPeer b)).head?

def idlePeers : List PeerId :=
  this.peers.filter (this.activeRequestsByPeer · = 0)

end ChainPeersBalancer

end Lodestar.Sync

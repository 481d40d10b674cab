import Lodestar.Chain.CheckpointStates
import Lodestar.Chain.ImportBlock
import Lodestar.Chain.Regen
import Lodestar.ForkChoice.KnownBlocks
import Lodestar.StateTransition.Util

/-!
# Processing a block

`processBlock` of `chain/blocks/index.ts`, with `verifyBlock.ts` and
`importBlock.ts`. The fork choice is told of the block before the head is looked
for, the state cached and the block written, any of which may fail. What the
rest of the program answers meanwhile is an `Environment`.

The queue runs one call at a time. What others tell the fork choice between the
awaits of a call is left to come before the call or after it.
-/

namespace Lodestar.Chain

open Lodestar.Base Lodestar.ForkChoice Lodestar.StateTransition

/-! ## States and blocks -/

/-- What else is used of a state, of a signed block and of the state transition. -/
class BlockImportFns [Preset] (State : Type) extends StateTransitionFns State where
  /-- What the fork choice reads of a state. -/
  toBeaconState : State → BeaconState
  genesisTime : State → Nat
  getEffectiveBalanceIncrementsZeroInactive : State → EffectiveBalanceIncrements
  message : Block → BeaconBlock
  Attestation : Type
  attestations : Block → List Attestation
  getIndexedAttestation : State → Attestation → Except String IndexedAttestation
  /-- `stateTransition` with `verifyStateRoot` off. -/
  checkedTransition : State → Block → (verifyProposer verifySignatures : Bool) →
    Except String State
  SignatureSet : Type
  getAllBlockSignatureSets : State → Block → Except String (List SignatureSet)
  getAllBlockSignatureSetsExceptProposer : State → Block → Except String (List SignatureSet)

section

variable [Preset] (State : Type) [fns : BlockImportFns State]

/-- A block with the flags that are read. -/
structure PartiallyVerifiedBlock where
  block : fns.Block
  skipImportingAttestations : Bool
  ignoreIfKnown : Bool
  /-- Only the signature of the proposer has been verified. -/
  validProposerSignature : Bool
  /-- All signatures have been verified. -/
  validSignatures : Bool

abbrev PartiallyVerifiedBlock.message {State : Type} [fns : BlockImportFns State]
    (this : PartiallyVerifiedBlock State) : BeaconBlock :=
  fns.message this.block

/-- The modules that processing a block writes. -/
structure ImportBlockModules where
  forkChoice : ForkChoice
  checkpointStateCache : CheckpointStateCache State
  stateCache : StateContextCache State
  /-- `db.block`, by the roots of the messages. -/
  blockDb : OrderedMap Root fns.Block

end

structure BlockProcessOpts where
  disableBlsBatchVerify : Bool
  safeSlotsToImportOptimistically : Nat

/-! ## Errors -/

inductive ExecutePayloadResponse where
  | VALID (latestValidHash : RootHex)
  | INVALID (latestValidHash : RootHex) (validationError : Option String)
  | ACCEPTED
  | SYNCING
  | INVALID_BLOCK_HASH (validationError : String)
  | INVALID_TERMINAL_BLOCK (validationError : String)
  | ELERROR (validationError : String)
  | UNAVAILABLE (validationError : String)

inductive ExecutionErrorStatus where
  | INVALID
  | INVALID_BLOCK_HASH
  | INVALID_TERMINAL_BLOCK
  | ELERROR
  | UNAVAILABLE
  | UNSAFE_OPTIMISTIC_STATUS
  deriving DecidableEq

/-- An error that is not a `BlockError`. -/
inductive OtherError where
  | forkChoice (error : ForkChoiceError)
  | error (message : String)
  deriving DecidableEq

/-- The types of `BlockError` that are thrown. -/
inductive BlockError where
  | GENESIS_BLOCK
  | WOULD_REVERT_FINALIZED_SLOT (blockSlot finalizedSlot : Nat)
  | PARENT_UNKNOWN (parentRoot : RootHex)
  | FUTURE_SLOT (blockSlot : Nat) (currentSlot : Int)
  | ALREADY_KNOWN (root : RootHex)
  | PRESTATE_MISSING (error : String)
  | INVALID_SIGNATURE
  | EXECUTION_ENGINE_ERROR (execStatus : ExecutionErrorStatus) (errorMessage : String)
  | INVALID_STATE_ROOT (root expectedRoot : Root)
  | BEACON_CHAIN_ERROR (error : OtherError)
  deriving DecidableEq

inductive Thrown where
  | blockError (type : BlockError)
  | other (error : OtherError)
  deriving DecidableEq

def getBlockError : Thrown → BlockError
  | .blockError type => type
  | .other error => .BEACON_CHAIN_ERROR error

section

variable {α : Type}

def ofForkChoice (x : Except ForkChoiceError α) : Except Thrown α :=
  x.mapError fun error => .other (.forkChoice error)

def ofProtoArray (x : Except ProtoArrayError α) : Except Thrown α :=
  ofForkChoice (x.mapError .protoArray)

def ofCall (x : Except String α) : Except Thrown α :=
  x.mapError fun message => .other (.error message)

end

/-! ## What is awaited -/

section

variable [Preset] {State : Type} [fns : BlockImportFns State]

variable (State) in
/-- What the rest of the program answers while a block is processed. An error is a promise that
rejects, or a call that throws. -/
structure Environment where
  currentSlot : Int
  /-- `Date.now()`. -/
  now : Int
  /-- `regen.getPreState`, which may write to the caches. -/
  getPreState : fns.Block → CheckpointStateCache State → StateContextCache State →
    Except String State × CheckpointStateCache State × StateContextCache State
  verifySignatureSets : List fns.SignatureSet → Except String Bool
  notifyNewPayload : ExecutionPayload → Except String ExecutePayloadResponse
  /-- `eth1.getPowBlock`; an error if one of its calls rejects. -/
  getPowBlock : Except String (RootHex → Option PowBlockHex)
  /-- `db.block.add`. -/
  addBlock : Except String Unit
  /-- The events of the block and its attestations; an error if a listener throws. -/
  emitBlock : Except String Unit
  /-- The events that are pending after those. -/
  emitPending : Except String Unit

/-- A call on the modules that may throw. -/
abbrev ImportM (State : Type) [BlockImportFns State] :=
  EStateM Thrown (ImportBlockModules State)

/-- A call of a method of the fork choice that writes. -/
def onForkChoice {α : Type} (x : ForkChoiceM α) : ImportM State α := fun chain =>
  match x.run chain.forkChoice with
  | .ok a forkChoice => .ok a { chain with forkChoice }
  | .error error forkChoice => .error (.other (.forkChoice error)) { chain with forkChoice }

/-! ## Verification -/

def verifyBlockSanityChecks (forkChoice : ForkChoice) (currentSlot : Int) (block : BeaconBlock) :
    Except Thrown IProtoBlock := do
  if block.slot = 0 then
    throw (.blockError .GENESIS_BLOCK)
  let finalizedSlot := computeStartSlotAtEpoch forkChoice.fcStore.finalizedCheckpoint.epoch
  if block.slot ≤ finalizedSlot then
    throw (.blockError (.WOULD_REVERT_FINALIZED_SLOT block.slot finalizedSlot))
  let some parentBlock ← ofProtoArray (forkChoice.getBlockHex block.parentRoot)
    | throw (.blockError (.PARENT_UNKNOWN block.parentRoot))
  if block.slot > currentSlot then
    throw (.blockError (.FUTURE_SLOT block.slot currentSlot))
  if ← ofProtoArray (forkChoice.hasBlockHex block.hashTreeRoot) then
    throw (.blockError (.ALREADY_KNOWN block.hashTreeRoot))
  return parentBlock

variable (env : Environment State) (opts : BlockProcessOpts)
  (partiallyVerifiedBlock : PartiallyVerifiedBlock State)

def getPreState (block : fns.Block) : ImportM State State := fun chain =>
  let (preState, checkpointStateCache, stateCache) :=
    env.getPreState block chain.checkpointStateCache chain.stateCache
  match preState with
  | .ok preState => .ok preState { chain with checkpointStateCache, stateCache }
  | .error error =>
    .error (.blockError (.PRESTATE_MISSING error)) { chain with checkpointStateCache, stateCache }

/-- The batch of all signatures, unless they have been verified. -/
def verifySignatures (postState : State) : Except Thrown Unit := do
  let { block, validProposerSignature, validSignatures, .. } := partiallyVerifiedBlock
  if !opts.disableBlsBatchVerify && !validSignatures then
    let signatureSets ← ofCall
      (if validProposerSignature then fns.getAllBlockSignatureSetsExceptProposer postState block
      else fns.getAllBlockSignatureSets postState block)
    if signatureSets.length > 0 then
      if !(← ofCall (env.verifySignatureSets signatureSets)) then
        throw (.blockError .INVALID_SIGNATURE)

/-- The payload, if execution is enabled. -/
def executionPayloadEnabled (postState : BeaconState) (block : BeaconBlock) :
    Option ExecutionPayload :=
  match postState.latestExecutionPayloadHeader, block.executionPayload with
  | some header, some payload => if isExecutionEnabled header payload then some payload else none
  | _, _ => none

/-- A payload that is not verified yet may be imported past the merge, or a while after it. -/
def checkOptimistic (forkChoice : ForkChoice) (block : BeaconBlock) (genesisTime : Nat)
    (status : String) : Except Thrown ExecutionStatus := do
  let parentBlock ← ofProtoArray (forkChoice.getBlockHex block.parentRoot)
  let justifiedBlock ← ofForkChoice forkChoice.getJustifiedBlock
  let clockSlot := getCurrentSlot forkChoice.config genesisTime env.now
  let isSafe := parentBlock.any fun parentBlock =>
    !(parentBlock.execution = .preMerge && justifiedBlock.execution = .preMerge &&
      ((block.slot + opts.safeSlotsToImportOptimistically : Nat) : Int) > clockSlot)
  if !isSafe then
    throw (.blockError (.EXECUTION_ENGINE_ERROR .UNSAFE_OPTIMISTIC_STATUS
      (s!"not safe to import {status} payload within {opts.safeSlotsToImportOptimistically} of " ++
        s!"currentSlot, status={status}")))
  return .Syncing

/-- What the execution engine says of the payload; `validateLatestHash` does nothing yet. -/
def checkPayload (forkChoice : ForkChoice) (block : BeaconBlock) (genesisTime : Nat)
    (payload : ExecutionPayload) : Except Thrown ExecutionStatus := do
  match ← ofCall (env.notifyNewPayload payload) with
  | .VALID _ => return .Valid
  | .INVALID _ validationError =>
    throw (.blockError (.EXECUTION_ENGINE_ERROR .INVALID (validationError.getD "")))
  | .ACCEPTED => checkOptimistic env opts forkChoice block genesisTime "ACCEPTED"
  | .SYNCING => checkOptimistic env opts forkChoice block genesisTime "SYNCING"
  | .INVALID_BLOCK_HASH validationError =>
    throw (.blockError (.EXECUTION_ENGINE_ERROR .INVALID_BLOCK_HASH validationError))
  | .INVALID_TERMINAL_BLOCK validationError =>
    throw (.blockError (.EXECUTION_ENGINE_ERROR .INVALID_TERMINAL_BLOCK validationError))
  | .ELERROR validationError =>
    throw (.blockError (.EXECUTION_ENGINE_ERROR .ELERROR validationError))
  | .UNAVAILABLE validationError =>
    throw (.blockError (.EXECUTION_ENGINE_ERROR .UNAVAILABLE validationError))

def getExecutionStatus (forkChoice : ForkChoice) (block : BeaconBlock) (postState : State) :
    Except Thrown ExecutionStatus :=
  match executionPayloadEnabled (fns.toBeaconState postState) block with
  | some payload => checkPayload env opts forkChoice block (fns.genesisTime postState) payload
  | none => .ok .PreMerge

/-- The checks of `verifyBlockStateTransition` on the post state. -/
def checkPostState (forkChoice : ForkChoice) (postState : State) :
    Except Thrown ExecutionStatus := do
  let block := partiallyVerifiedBlock.message
  verifySignatures env opts partiallyVerifiedBlock postState
  let executionStatus ← getExecutionStatus env opts forkChoice block postState
  if block.stateRoot ≠ fns.hashTreeRoot postState then
    throw (.blockError (.INVALID_STATE_ROOT (fns.hashTreeRoot postState) block.stateRoot))
  return executionStatus

def verifyBlockStateTransition : ImportM State (State × ExecutionStatus) := do
  let { block, validProposerSignature, validSignatures, .. } := partiallyVerifiedBlock
  let preState ← getPreState env block
  let useBlsBatchVerify := !opts.disableBlsBatchVerify
  let postState ← MonadExcept.ofExcept (ofCall (fns.checkedTransition preState block
    (!useBlsBatchVerify && !validSignatures && !validProposerSignature)
    (!useBlsBatchVerify && !validSignatures)))
  let executionStatus ← MonadExcept.ofExcept
    (checkPostState env opts partiallyVerifiedBlock (← get).forkChoice postState)
  return (postState, executionStatus)

/-- The post state and the execution status; the parent is for the light client server. -/
def verifyBlock : ImportM State (State × ExecutionStatus) := do
  let _ ← MonadExcept.ofExcept (verifyBlockSanityChecks (← get).forkChoice env.currentSlot
    partiallyVerifiedBlock.message)
  verifyBlockStateTransition env opts partiallyVerifiedBlock

/-! ## Import -/

/-- Fork-choice allows to import attestations from current (0) or past (1) epoch. -/
def FORK_CHOICE_ATT_EPOCH_LIMIT : Nat := 1

/-- The oldest cached state down the chain, not before the slot. -/
def oldestState (stateCache : StateContextCache State) (checkpointSlot : Nat) :
    List IProtoNode → State → State
  | [], state => state
  | parentBlock :: ancestors, state =>
    if parentBlock.slot < checkpointSlot then state
    else oldestState stateCache checkpointSlot ancestors
      ((stateCache.get parentBlock.stateRoot).getD state)

def getStateForJustifiedBalances (chain : ImportBlockModules State) (postState : State)
    (block : BeaconBlock) : Except ProtoArrayError State := do
  let checkpoint := toCheckpointWithHex (fns.toBeaconState postState).currentJustifiedCheckpoint
  let checkpointSlot := computeStartSlotAtEpoch checkpoint.epoch
  match ← chain.forkChoice.getBlockHex checkpoint.rootHex with
  | none => return postState
  | some checkpointBlock =>
    -- the state of the block may be before the checkpoint, if its slot was skipped
    let checkpointBlockState :=
      if checkpointBlock.slot ≥ checkpointSlot then chain.stateCache.get checkpointBlock.stateRoot
      else none
    match checkpointBlockState.or
        (chain.checkpointStateCache.get checkpoint.rootHex checkpoint.epoch) with
    | some state => return state
    | none =>
      let ancestors ← chain.forkChoice.iterateAncestorBlocks block.parentRoot
      return oldestState chain.stateCache checkpointSlot ancestors postState

/-- What the fork choice is told beside the block and its state. -/
def importedData (chain : ImportBlockModules State) (block : BeaconBlock) (postState : State)
    (executionStatus : ExecutionStatus) : Except Thrown OnBlockPrecachedData := do
  let state := fns.toBeaconState postState
  let blockDelaySec : Int :=
    (env.now / 1000 - fns.genesisTime postState).tmod chain.forkChoice.config.SECONDS_PER_SLOT
  let balances ←
    if state.currentJustifiedCheckpoint.epoch > chain.forkChoice.fcStore.justifiedCheckpoint.epoch
    then do
      let justifiedState ← ofProtoArray (getStateForJustifiedBalances chain postState block)
      pure (fns.getEffectiveBalanceIncrementsZeroInactive justifiedState)
    else pure []
  let isMergeTransition := match state.latestExecutionPayloadHeader, block.executionPayload with
    | some header, some payload => isMergeTransitionBlock header payload
    | _, _ => false
  let getPowBlock ← if isMergeTransition then ofCall env.getPowBlock else pure fun _ => none
  ofCall (onBlockPrecachedData chain.forkChoice block state executionStatus blockDelaySec balances
    getPowBlock)

/-- `importBlock` up to `forkChoice.onBlock`. -/
def registerBlock (postState : State) (executionStatus : ExecutionStatus) :
    ImportM State Unit := do
  let block := partiallyVerifiedBlock.message
  let data ← MonadExcept.ofExcept
    (importedData env (← get) block postState executionStatus)
  onForkChoice (onBlock block (fns.toBeaconState postState) (some data))

/-- The attestation, if the fork choice may count it; what is thrown is logged. -/
def importAttestation (postState : State) (currentEpoch : Nat) (this : ForkChoice)
    (attestation : fns.Attestation) : ForkChoice :=
  match fns.getIndexedAttestation postState attestation with
  | .ok indexedAttestation =>
    let targetEpoch := indexedAttestation.data.target.epoch
    if targetEpoch ≤ currentEpoch ∧ currentEpoch ≤ targetEpoch + FORK_CHOICE_ATT_EPOCH_LIMIT then
      stateOf ((onAttestation indexedAttestation).run this)
    else this
  | .error _ => this

def importAttestations (postState : State) : ForkChoiceM Unit := do
  let this ← get
  let block := partiallyVerifiedBlock.message
  let currentEpoch := computeEpochAtSlot this.fcStore.currentSlot
  let blockEpoch := computeEpochAtSlot block.slot
  if !partiallyVerifiedBlock.skipImportingAttestations ∧
      currentEpoch ≤ blockEpoch + FORK_CHOICE_ATT_EPOCH_LIMIT then
    -- the parent, for the metrics
    let _ ← MonadExcept.ofExcept ((this.getBlockHex block.parentRoot).mapError .protoArray)
    set ((fns.attestations partiallyVerifiedBlock.block).foldl
      (importAttestation postState currentEpoch) this)

/-- The state of a block at the start of an epoch is a checkpoint state. -/
def cacheCheckpointState (postState : State) : ImportM State Unit := do
  if partiallyVerifiedBlock.message.slot % SLOTS_PER_EPOCH = 0 then
    let cp ← MonadExcept.ofExcept (ofCall ((getCheckpointFromState postState).mapError
      fun _ => "Checkpoint state slot must be first in an epoch"))
    modify fun chain =>
      { chain with checkpointStateCache := chain.checkpointStateCache.add cp postState }

/-- What is reported of a head: how far the chain is reorganised, and the finalized block to the
execution engine, which is not waited for. -/
def reportHead (this : ForkChoice) (oldHead newHead : IProtoNode) (prevFinalizedEpoch : Nat) :
    Except ForkChoiceError Unit := do
  if newHead.blockRoot ≠ oldHead.blockRoot then
    let _ ← this.getCommonAncestorDistance oldHead.toIProtoBlock newHead.toIProtoBlock
  let currFinalizedEpoch := this.fcStore.finalizedCheckpoint.epoch
  if newHead.blockRoot ≠ oldHead.blockRoot ∨ currFinalizedEpoch ≠ prevFinalizedEpoch then
    let _ ← this.getFinalizedBlock

def refreshHead (prevFinalizedEpoch : Nat) : ForkChoiceM Unit := do
  let oldHead ← MonadExcept.ofExcept (← get).getHead
  let newHead ← updateHead
  MonadExcept.ofExcept (reportHead (← get) oldHead newHead prevFinalizedEpoch)

/-- The state is cached and the block written. -/
def storeBlock (postState : State) : ImportM State Unit := do
  modify fun chain => { chain with stateCache := chain.stateCache.add postState }
  MonadExcept.ofExcept (ofCall env.addBlock)
  let block := partiallyVerifiedBlock.block
  modify fun chain =>
    { chain with blockDb := chain.blockDb.set (fns.message block).hashTreeRoot block }

/-- `onCheckpoint` of the archiver. -/
def onCheckpoint : ImportM State Unit := do
  let { forkChoice, checkpointStateCache, stateCache, .. } ← get
  let head ← MonadExcept.ofExcept (ofForkChoice forkChoice.getHead)
  let checkpointStateCache := checkpointStateCache.prune
    forkChoice.fcStore.finalizedCheckpoint.epoch forkChoice.fcStore.justifiedCheckpoint.epoch
  modify fun chain =>
    { chain with checkpointStateCache, stateCache := stateCache.prune head.stateRoot }

/-- The events, of which the one of a checkpoint is for the archiver. -/
def sendEvents : ImportM State Unit := do
  MonadExcept.ofExcept (ofCall env.emitBlock)
  if partiallyVerifiedBlock.message.slot % SLOTS_PER_EPOCH = 0 then
    onCheckpoint
  MonadExcept.ofExcept (ofCall env.emitPending)

/-- `importBlock` after `forkChoice.onBlock`; errors of the light client server are logged. -/
def finishImport (postState : State) (prevFinalizedEpoch : Nat) : ImportM State Unit := do
  onForkChoice (importAttestations partiallyVerifiedBlock postState)
  cacheCheckpointState partiallyVerifiedBlock postState
  onForkChoice (refreshHead prevFinalizedEpoch)
  storeBlock env partiallyVerifiedBlock postState
  sendEvents env partiallyVerifiedBlock

/-- `verifyBlock`, and `importBlock` up to `forkChoice.onBlock`: the post state, and the epoch that
was finalized before. -/
def verifyAndRegister : ImportM State (State × Nat) := do
  let (postState, executionStatus) ← verifyBlock env opts partiallyVerifiedBlock
  let prevFinalizedEpoch := (← get).forkChoice.fcStore.finalizedCheckpoint.epoch
  registerBlock env partiallyVerifiedBlock postState executionStatus
  return (postState, prevFinalizedEpoch)

/-! ## Processing -/

/-- How `processBlock` resolves. -/
inductive Processed where
  | imported
  | ignored
  deriving DecidableEq

/-- `ignoreIfKnown` is for these. -/
def BlockError.isKnown : BlockError → Bool
  | .ALREADY_KNOWN _ | .GENESIS_BLOCK => true
  | _ => false

/-- `verifyBlock` and `importBlock`. -/
def verifyAndImport : ImportM State Unit := do
  let (postState, prevFinalizedEpoch) ← verifyAndRegister env opts partiallyVerifiedBlock
  finishImport env partiallyVerifiedBlock postState prevFinalizedEpoch

def processBlock : EStateM BlockError (ImportBlockModules State) Processed := fun chain =>
  match (verifyAndImport env opts partiallyVerifiedBlock).run chain with
  | .ok _ chain => .ok .imported chain
  | .error error chain =>
    let err := getBlockError error
    if partiallyVerifiedBlock.ignoreIfKnown && err.isKnown then .ok .ignored chain
    else .error err chain

end

end Lodestar.Chain

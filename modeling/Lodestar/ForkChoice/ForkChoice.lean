import Lodestar.ForkChoice.Ancestors
import Lodestar.ForkChoice.ComputeDeltas

/-!
# The fork choice

`forkChoice/forkChoice.ts`. A method that writes is a `ForkChoiceM`, which keeps
what has been written when it throws.
-/

namespace Lodestar

open ForkChoice in
structure ForkChoice where
  config : ChainConfig
  fcStore : IForkChoiceStore
  protoArray : ProtoArray
  /-- The balances of the state at the justified checkpoint. -/
  justifiedBalances : EffectiveBalanceIncrements
  proposerBoostEnabled : Bool
  /-- The balances of the state at the best justified checkpoint. -/
  bestJustifiedBalances : EffectiveBalanceIncrements
  /-- The latest messages, by validator index. -/
  votes : List (Option IVoteTracker)
  /-- The attestations that wait for their slot, the oldest first. -/
  queuedAttestations : List IQueuedAttestation
  /-- Whether the scores are those of the votes. -/
  synced : Bool
  /-- The cached head; none before the constructor has set it. -/
  head : Option IProtoNode
  /-- The roots of the attestation data that have passed the checks in this slot. -/
  validatedAttestationDatas : List Root
  /-- The branch of this block is boosted. -/
  proposerBoostRoot : Option RootHex
  /-- The score of the boost, once it is known for the justified balances. -/
  justifiedProposerBoostScore : Option Nat

namespace ForkChoice

open Lodestar.StateTransition

variable [Preset]

/-- A call on a fork choice that may throw. -/
abbrev ForkChoiceM := EStateM ForkChoiceError ForkChoice

/-! ## Proposer boost -/

/-- With no active validator the source divides by zero; a justified state has one. -/
def computeProposerBoostScore (justifiedTotalActiveBalanceByIncrement justifiedActiveValidators
    slotsPerEpoch proposerScoreBoost : Nat) : Nat :=
  let avgBalanceByIncrement := justifiedTotalActiveBalanceByIncrement / justifiedActiveValidators
  let committeeSize := justifiedActiveValidators / slotsPerEpoch
  let committeeWeight := committeeSize * avgBalanceByIncrement
  committeeWeight * proposerScoreBoost / 100

def computeProposerBoostScoreFromBalances (justifiedBalances : EffectiveBalanceIncrements)
    (slotsPerEpoch proposerScoreBoost : Nat) : Nat :=
  let active := justifiedBalances.filter (0 < ·)
  computeProposerBoostScore active.sum active.length slotsPerEpoch proposerScoreBoost

/-! ## Checkpoints -/

/-- The block root of an ancestor of `blockRoot` at the slot, or before it if it was skipped. -/
def getAncestor (this : ForkChoice) (blockRoot : RootHex) (ancestorSlot : Nat) :
    Except ForkChoiceError RootHex :=
  match this.protoArray.getBlock blockRoot with
  | none => .error (.MISSING_PROTO_ARRAY_BLOCK blockRoot)
  | some block =>
    if block.slot > ancestorSlot then do
      let nodes ← (this.protoArray.iterateAncestorNodes blockRoot).mapError .protoArray
      match nodes.find? (·.slot ≤ ancestorSlot) with
      | some node => .ok node.blockRoot
      | none => .error (.UNKNOWN_ANCESTOR blockRoot ancestorSlot)
    else
      .ok blockRoot

def updateJustified (this : ForkChoice) (justifiedCheckpoint : CheckpointWithHex)
    (justifiedBalances : EffectiveBalanceIncrements) : ForkChoice :=
  { this with
    synced := false
    justifiedBalances
    justifiedProposerBoostScore := none
    fcStore := { this.fcStore with justifiedCheckpoint } }

def updateBestJustified (this : ForkChoice) (justifiedCheckpoint : CheckpointWithHex)
    (justifiedBalances : EffectiveBalanceIncrements) : ForkChoice :=
  { this with
    bestJustifiedBalances := justifiedBalances
    fcStore := { this.fcStore with bestJustifiedCheckpoint := justifiedCheckpoint } }

/-- The update of the finalized checkpoint in `onBlock`. -/
def updateFinalized (this : ForkChoice) (finalizedCheckpoint : CheckpointWithHex) : ForkChoice :=
  { this with
    synced := false
    fcStore := { this.fcStore with finalizedCheckpoint } }

/-- Whether the store should take over the state's justified checkpoint. -/
def shouldUpdateJustifiedCheckpoint (this : ForkChoice) (state : BeaconState) :
    Except ForkChoiceError Bool :=
  if computeSlotsSinceEpochStart this.fcStore.currentSlot < SAFE_SLOTS_TO_UPDATE_JUSTIFIED then
    .ok true
  else
    let justifiedSlot := computeStartSlotAtEpoch this.fcStore.justifiedCheckpoint.epoch
    if justifiedSlot ≥ state.slot then
      .error (.ATTEMPT_TO_REVERT_JUSTIFICATION justifiedSlot state.slot)
    -- in regular sync the clock is ahead of the state
    else if computeEpochAtSlot state.slot < computeEpochAtSlot this.fcStore.currentSlot then
      .ok true
    else do
      let justifiedAncestor ← this.getAncestor state.currentJustifiedCheckpoint.root justifiedSlot
      return justifiedAncestor = this.fcStore.justifiedCheckpoint.rootHex

/-! ## The head -/

/-- The score of the boost, which is worked out once for the justified balances. -/
def proposerBoostScore (this : ForkChoice) : Nat :=
  this.justifiedProposerBoostScore.getD
    (computeProposerBoostScoreFromBalances this.justifiedBalances SLOTS_PER_EPOCH
      this.config.PROPOSER_SCORE_BOOST)

/-- The part of `updateHead` that brings the scores up to date. -/
def updateScores : ForkChoiceM Unit := do
  let this ← get
  let (deltas, votes) ← MonadExcept.ofExcept
    ((computeDeltas this.protoArray.indices this.votes this.justifiedBalances
      this.justifiedBalances).mapError .protoArray)
  modify ({ · with votes })
  let proposerBoost : Option ProposerBoost ←
    match this.proposerBoostEnabled, this.proposerBoostRoot with
    | true, some root => do
      modify ({ · with justifiedProposerBoostScore := some this.proposerBoostScore })
      pure (some ⟨root, this.proposerBoostScore⟩)
    | _, _ => pure none
  let protoArray ← MonadExcept.ofExcept
    ((this.protoArray.applyScoreChanges
      { deltas
        proposerBoost
        justifiedEpoch := this.fcStore.justifiedCheckpoint.epoch
        justifiedRoot := this.fcStore.justifiedCheckpoint.rootHex
        finalizedEpoch := this.fcStore.finalizedCheckpoint.epoch
        finalizedRoot := this.fcStore.finalizedCheckpoint.rootHex }).mapError .protoArray)
  modify ({ · with protoArray, synced := true })

/-- The part of `updateHead` that finds the head and caches it. -/
def cacheHead : ForkChoiceM IProtoNode := do
  let this ← get
  let headRoot ← MonadExcept.ofExcept
    ((this.protoArray.findHead this.fcStore.justifiedCheckpoint.rootHex).mapError .protoArray)
  match this.protoArray.getNode headRoot with
  | none => throw (.MISSING_PROTO_ARRAY_BLOCK headRoot)
  | some headNode =>
    modify ({ · with head := some headNode })
    return headNode

/-- Runs the fork choice rule. -/
def updateHead : ForkChoiceM IProtoNode := do
  if !(← get).synced then
    updateScores
  cacheHead

/-- The fork choice before the constructor looks for the head. -/
def initial (config : ChainConfig) (fcStore : IForkChoiceStore) (protoArray : ProtoArray)
    (justifiedBalances : EffectiveBalanceIncrements) (proposerBoostEnabled : Bool) :
    ForkChoice where
  config
  fcStore
  protoArray
  justifiedBalances
  proposerBoostEnabled
  bestJustifiedBalances := justifiedBalances
  votes := []
  queuedAttestations := []
  synced := false
  head := none
  validatedAttestationDatas := []
  proposerBoostRoot := none
  justifiedProposerBoostScore := none

/-- The constructor. -/
def new (config : ChainConfig) (fcStore : IForkChoiceStore) (protoArray : ProtoArray)
    (justifiedBalances : EffectiveBalanceIncrements) (proposerBoostEnabled : Bool) :
    Except ForkChoiceError ForkChoice :=
  match updateHead.run
      (initial config fcStore protoArray justifiedBalances proposerBoostEnabled) with
  | .ok _ this => .ok this
  | .error e _ => .error e

/-! ## Blocks -/

/-- The first checks of `onBlock`. -/
def checkBlock (this : ForkChoice) (block : BeaconBlock) : Except ForkChoiceError Unit := do
  if !this.protoArray.hasBlock block.parentRoot then
    throw (.INVALID_BLOCK (.UNKNOWN_PARENT block.parentRoot))
  -- a block of the future is dropped
  if block.slot > this.fcStore.currentSlot then
    throw (.INVALID_BLOCK (.FUTURE_SLOT this.fcStore.currentSlot block.slot))
  let finalizedSlot := computeStartSlotAtEpoch this.fcStore.finalizedCheckpoint.epoch
  if block.slot ≤ finalizedSlot then
    throw (.INVALID_BLOCK (.FINALIZED_SLOT finalizedSlot block.slot))
  let blockAncestorRoot ← this.getAncestor block.parentRoot finalizedSlot
  let finalizedRoot := this.fcStore.finalizedCheckpoint.rootHex
  if blockAncestorRoot ≠ finalizedRoot then
    throw (.INVALID_BLOCK (.NOT_FINALIZED_DESCENDANT finalizedRoot blockAncestorRoot))

/-- Whether `onBlock` checks the terminal block. -/
def isTerminalBlockChecked (block : BeaconBlock) (state : BeaconState)
    (preCachedData : Option OnBlockPrecachedData) : Bool :=
  preCachedData.any (·.isMergeTransitionBlock) ||
    match state.latestExecutionPayloadHeader, block.executionPayload with
    | some header, some payload => isMergeTransitionBlock header payload
    | _, _ => false

def toHexString (root : Root) : String :=
  "0x" ++ root.toHex

def epochText : WithTop Nat → String
  | none => "Infinity"
  | some epoch => toString epoch

def assertValidTerminalPowBlock (config : ChainConfig) (block : BeaconBlock)
    (preCachedData : Option OnBlockPrecachedData) : Except ForkChoiceError Unit := do
  if config.TERMINAL_BLOCK_HASH ≠ HEX_ZERO_HASH then
    if computeEpochAtSlot block.slot < config.TERMINAL_BLOCK_HASH_ACTIVATION_EPOCH then
      throw (.error s!"Terminal block activation epoch {epochText config.TERMINAL_BLOCK_HASH_ACTIVATION_EPOCH} not reached")
    let some executionPayload := block.executionPayload
      | throw (.error "executionPayload is undefined")
    if executionPayload.parentHash ≠ config.TERMINAL_BLOCK_HASH then
      throw (.error s!"Invalid terminal block hash, expected: {toHexString config.TERMINAL_BLOCK_HASH}, actual: {toHexString executionPayload.parentHash}")
  else
    -- the payload's status is not known yet
    if preCachedData.bind (·.executionStatus) = some .Syncing then
      return
    let some powBlock := preCachedData.bind (·.powBlock)
      | throw (.error "onBlock preCachedData must include powBlock")
    let some powBlockParent := preCachedData.bind (·.powBlockParent)
      | throw (.error "onBlock preCachedData must include powBlock")
    let isTotalDifficultyReached :=
      decide (config.TERMINAL_TOTAL_DIFFICULTY ≤ powBlock.totalDifficulty)
    let isParentTotalDifficultyValid :=
      decide (powBlockParent.totalDifficulty < config.TERMINAL_TOTAL_DIFFICULTY)
    if !isTotalDifficultyReached || !isParentTotalDifficultyValid then
      throw (.error s!"Invalid terminal POW block: total difficulty not reached {powBlockParent.totalDifficulty} < {powBlock.totalDifficulty}")

def noBalancesError : ForkChoiceError :=
  .UNABLE_TO_SET_JUSTIFIED_CHECKPOINT "No validator balances supplied"

/-- The first part of the update of the checkpoints in `onBlock`: whether the justified checkpoint
is to be taken over from the state. -/
def considerJustified (state : BeaconState) (preCachedData : Option OnBlockPrecachedData) :
    ForkChoiceM Bool := do
  let this ← get
  let currentJustifiedCheckpoint := toCheckpointWithHex state.currentJustifiedCheckpoint
  if currentJustifiedCheckpoint.epoch > this.fcStore.justifiedCheckpoint.epoch then
    let some justifiedBalances := preCachedData.bind (·.justifiedBalances)
      | throw noBalancesError
    if currentJustifiedCheckpoint.epoch > this.fcStore.bestJustifiedCheckpoint.epoch then
      modify (·.updateBestJustified currentJustifiedCheckpoint justifiedBalances)
    MonadExcept.ofExcept ((← get).shouldUpdateJustifiedCheckpoint state)
  else
    return false

/-- The update of the checkpoints in `onBlock`. -/
def updateCheckpoints (state : BeaconState) (preCachedData : Option OnBlockPrecachedData) :
    ForkChoiceM Unit := do
  let mut shouldUpdateJustified ← considerJustified state preCachedData
  if state.finalizedCheckpoint.epoch > (← get).fcStore.finalizedCheckpoint.epoch then
    modify (·.updateFinalized (toCheckpointWithHex state.finalizedCheckpoint))
    shouldUpdateJustified := true
  -- after the finalized checkpoint
  if shouldUpdateJustified then
    let some justifiedBalances := preCachedData.bind (·.justifiedBalances)
      | throw noBalancesError
    modify (·.updateJustified (toCheckpointWithHex state.currentJustifiedCheckpoint)
      justifiedBalances)

/-- `onBlock` boosts a block that is timely. -/
def updateProposerBoost (block : BeaconBlock) (preCachedData : Option OnBlockPrecachedData) :
    ForkChoiceM Unit := do
  let this ← get
  if this.proposerBoostEnabled && block.slot = this.fcStore.currentSlot then
    let some blockDelaySec := preCachedData.map (·.blockDelaySec)
      | throw (.error "Missing blockDelaySec info for proposerBoost")
    if getCurrentInterval this.config blockDelaySec < 1 then
      modify ({ · with proposerBoostRoot := some block.hashTreeRoot, synced := false })

def getPreMergeExecStatus (preCachedData : Option OnBlockPrecachedData) :
    Except ForkChoiceError BlockExecution :=
  match (preCachedData.bind (·.executionStatus)).getD .PreMerge with
  | .PreMerge => .ok .preMerge
  | .Valid => .error (.error "Invalid pre-merge execution status: expected: PreMerge, got Valid")
  | .Syncing =>
    .error (.error "Invalid pre-merge execution status: expected: PreMerge, got Syncing")

def getPostMergeExecStatus (executionPayloadBlockHash : RootHex)
    (preCachedData : Option OnBlockPrecachedData) : Except ForkChoiceError BlockExecution :=
  match (preCachedData.bind (·.executionStatus)).getD .Syncing with
  | .Valid => .ok (.valid executionPayloadBlockHash)
  | .Syncing => .ok (.syncing executionPayloadBlockHash)
  | .PreMerge => .error (.error
      "Invalid post-merge execution status: expected: Syncing or Valid , got PreMerge")

/-- The block's payload hash and execution status. -/
def blockExecution (block : BeaconBlock) (state : BeaconState)
    (preCachedData : Option OnBlockPrecachedData) : Except ForkChoiceError BlockExecution :=
  match block.executionPayload, state.latestExecutionPayloadHeader with
  | some payload, some header =>
    if isExecutionEnabled header payload then getPostMergeExecStatus payload.blockHash preCachedData
    else getPreMergeExecStatus preCachedData
  | _, _ => getPreMergeExecStatus preCachedData

/-- The root an attestation for the block has as its target. -/
def blockTargetRoot (block : BeaconBlock) (state : BeaconState) : Root :=
  let targetSlot := computeStartSlotAtEpoch (computeEpochAtSlot block.slot)
  if block.slot = targetSlot then block.hashTreeRoot
  else state.blockRoots.get
    ⟨targetSlot % SLOTS_PER_HISTORICAL_ROOT, Nat.mod_lt _ Preset.SLOTS_PER_HISTORICAL_ROOT_pos⟩

/-- The block that the proto array is told of. -/
def protoBlock (block : BeaconBlock) (state : BeaconState) (execution : BlockExecution) :
    IProtoBlock where
  slot := block.slot
  blockRoot := block.hashTreeRoot
  parentRoot := block.parentRoot
  targetRoot := blockTargetRoot block state
  stateRoot := block.stateRoot
  justifiedEpoch := state.currentJustifiedCheckpoint.epoch
  justifiedRoot := state.currentJustifiedCheckpoint.root
  finalizedEpoch := state.finalizedCheckpoint.epoch
  finalizedRoot := state.finalizedCheckpoint.root
  execution

/-- The checks of `onBlock` before its first write. -/
def entryChecks (this : ForkChoice) (block : BeaconBlock) (state : BeaconState)
    (preCachedData : Option OnBlockPrecachedData) : Except ForkChoiceError Unit := do
  this.checkBlock block
  if isTerminalBlockChecked block state preCachedData then
    assertValidTerminalPowBlock this.config block preCachedData

/-- The end of `onBlock`: no vote is applied to the block, but it can be the head without one. -/
def addBlock (block : BeaconBlock) (state : BeaconState)
    (preCachedData : Option OnBlockPrecachedData) : ForkChoiceM Unit := do
  let execution ← MonadExcept.ofExcept (blockExecution block state preCachedData)
  let protoArray ← MonadExcept.ofExcept
    (((← get).protoArray.onBlock (protoBlock block state execution)).mapError .protoArray)
  modify ({ · with protoArray })

/-- Adds the block to the fork choice DAG. -/
def onBlock (block : BeaconBlock) (state : BeaconState)
    (preCachedData : Option OnBlockPrecachedData) : ForkChoiceM Unit := do
  MonadExcept.ofExcept ((← get).entryChecks block state preCachedData)
  updateCheckpoints state preCachedData
  updateProposerBoost block preCachedData
  addBlock block state preCachedData

/-! ## Attestations -/

def validateAttestationData (this : ForkChoice) (attestationData : AttestationData) (slot : Nat)
    (beaconBlockRootHex : RootHex) (targetEpoch : Nat) : Except ForkChoiceError Unit := do
  let epochNow := computeEpochAtSlot this.fcStore.currentSlot
  let targetRootHex := attestationData.target.root
  -- it is from the current or the previous epoch
  if targetEpoch > epochNow then
    throw (.INVALID_ATTESTATION (.FUTURE_EPOCH targetEpoch epochNow))
  if targetEpoch + 1 < epochNow then
    throw (.INVALID_ATTESTATION (.PAST_EPOCH targetEpoch epochNow))
  if targetEpoch ≠ computeEpochAtSlot slot then
    throw (.INVALID_ATTESTATION (.BAD_TARGET_EPOCH targetEpoch slot))
  if !this.protoArray.hasBlock targetRootHex then
    throw (.INVALID_ATTESTATION (.UNKNOWN_TARGET_ROOT targetRootHex))
  let some block := this.protoArray.getBlock beaconBlockRootHex
    | throw (.INVALID_ATTESTATION (.UNKNOWN_HEAD_BLOCK beaconBlockRootHex))
  -- a block of an earlier epoch is its own target, as the slots between are skipped
  let expectedTargetHex :=
    if targetEpoch > computeEpochAtSlot block.slot then beaconBlockRootHex else block.targetRoot
  if expectedTargetHex ≠ targetRootHex then
    throw (.INVALID_ATTESTATION (.INVALID_TARGET targetRootHex expectedTargetHex))
  if block.slot > slot then
    throw (.INVALID_ATTESTATION (.ATTESTS_TO_FUTURE_BLOCK block.slot slot))

/-- The checks of an attestation; those of its data are made once in a slot if it is tree
backed. -/
def validateOnAttestation (indexedAttestation : IndexedAttestation) (slot : Nat)
    (blockRootHex : RootHex) (targetEpoch : Nat) : ForkChoiceM Unit := do
  if indexedAttestation.attestingIndices.isEmpty then
    throw (.INVALID_ATTESTATION .EMPTY_AGGREGATION_BITFIELD)
  let this ← get
  if indexedAttestation.dataTreeRoot.any (this.validatedAttestationDatas.contains ·) then
    return
  MonadExcept.ofExcept
    (this.validateAttestationData indexedAttestation.data slot blockRootHex targetEpoch)
  if let some root := indexedAttestation.dataTreeRoot then
    modify fun this =>
      { this with validatedAttestationDatas := this.validatedAttestationDatas ++ [root] }

/-- Writes a latest message; the indices up to the validator's are filled with holes. -/
def setVote (votes : List (Option IVoteTracker)) (validatorIndex : Nat) (vote : IVoteTracker) :
    List (Option IVoteTracker) :=
  (votes ++ List.replicate (validatorIndex + 1 - votes.length) none).set validatorIndex (some vote)

/-- Adds a validator's latest message to the tracked votes. -/
def addLatestMessage (this : ForkChoice) (validatorIndex nextEpoch : Nat) (nextRoot : RootHex) :
    ForkChoice :=
  let votes :=
    match this.votes.getD validatorIndex none with
    | none => setVote this.votes validatorIndex ⟨HEX_ZERO_HASH, nextRoot, nextEpoch⟩
    | some vote =>
      if nextEpoch > vote.nextEpoch then
        setVote this.votes validatorIndex { vote with nextRoot, nextEpoch }
      else
        -- an old vote
        this.votes
  { this with synced := false, votes }

def addLatestMessages (this : ForkChoice) (attestingIndices : List Nat) (targetEpoch : Nat)
    (blockRoot : RootHex) : ForkChoice :=
  attestingIndices.foldl (fun this validatorIndex =>
    this.addLatestMessage validatorIndex targetEpoch blockRoot) this

/-- Registers an attestation, at once if its slot is past. -/
def onAttestation (attestation : IndexedAttestation) : ForkChoiceM Unit := do
  let slot := attestation.data.slot
  let blockRootHex := attestation.data.beaconBlockRoot
  let targetEpoch := attestation.data.target.epoch
  -- the zero hash is an alias to the genesis block
  if blockRootHex = HEX_ZERO_HASH then
    return
  validateOnAttestation attestation slot blockRootHex targetEpoch
  if slot < (← get).fcStore.currentSlot then
    modify (·.addLatestMessages attestation.attestingIndices targetEpoch blockRootHex)
  else
    modify fun this =>
      { this with
        queuedAttestations := this.queuedAttestations ++
          [{ slot, attestingIndices := attestation.attestingIndices, blockRoot := blockRootHex
             targetEpoch }] }

/-! ## The clock -/

/-- Applies the queued attestations of the slots up to now, and takes them off the queue. -/
def processAttestationQueue (this : ForkChoice) : ForkChoice :=
  let currentSlot := this.fcStore.currentSlot
  let eligible := this.queuedAttestations.filter (·.slot ≤ currentSlot)
  let queuedAttestations := this.queuedAttestations.filter (!·.slot ≤ currentSlot)
  eligible.foldl (fun this attestation =>
      this.addLatestMessages attestation.attestingIndices attestation.targetEpoch
        attestation.blockRoot)
    { this with queuedAttestations }

/-- The part of `onTick` that sets the time; the boost ends with its slot. -/
def setTime (this : ForkChoice) (time : Nat) : ForkChoice :=
  let this := { this with fcStore := { this.fcStore with currentSlot := time } }
  -- the scores are to be made again without the boost
  if this.proposerBoostRoot.isSome then { this with proposerBoostRoot := none, synced := false }
  else this

/-- The part of `onTick` at the start of an epoch: the best justified checkpoint becomes the
justified one if it is on the finalized chain. -/
def startEpoch : ForkChoiceM Unit := do
  let this ← get
  let bestJustifiedCheckpoint := this.fcStore.bestJustifiedCheckpoint
  if bestJustifiedCheckpoint.epoch > this.fcStore.justifiedCheckpoint.epoch then
    let finalizedSlot := computeStartSlotAtEpoch this.fcStore.finalizedCheckpoint.epoch
    let ancestorAtFinalizedSlot ← MonadExcept.ofExcept
      (this.getAncestor bestJustifiedCheckpoint.rootHex finalizedSlot)
    if ancestorAtFinalizedSlot = this.fcStore.finalizedCheckpoint.rootHex then
      modify (·.updateJustified bestJustifiedCheckpoint this.bestJustifiedBalances)

/-- Called when the clock comes to a slot. -/
def onTick (time : Nat) : ForkChoiceM Unit := do
  let previousSlot := (← get).fcStore.currentSlot
  if time > previousSlot + 1 then
    throw (.INCONSISTENT_ON_TICK previousSlot time)
  modify (·.setTime time)
  if computeSlotsSinceEpochStart time ≠ 0 then
    return
  startEpoch

/-- The loop of `updateTime`, with the number of slots to come. -/
def tickSlots : Nat → ForkChoiceM Unit
  | 0 => pure ()
  | slots + 1 => do
    let previousSlot := (← get).fcStore.currentSlot
    onTick (previousSlot + 1)
    tickSlots slots

/-- Calls `onTick` for all slots up to the given one. -/
def updateTime (currentSlot : Nat) : ForkChoiceM Unit := do
  tickSlots (currentSlot - (← get).fcStore.currentSlot)
  modify processAttestationQueue
  modify ({ · with validatedAttestationDatas := [] })

/-! ## Pruning -/

def prune (finalizedRoot : RootHex) : ForkChoiceM (List IProtoBlock) := do
  let (removed, protoArray) ← MonadExcept.ofExcept
    (((← get).protoArray.maybePrune finalizedRoot).mapError .protoArray)
  modify ({ · with protoArray })
  return removed

def setPruneThreshold (threshold : Nat) : ForkChoiceM Unit :=
  modify fun this => { this with protoArray := { this.protoArray with pruneThreshold := threshold } }

end ForkChoice

end Lodestar

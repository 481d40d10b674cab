import Lodestar.Chain.GossipAttestation
import Lodestar.Chain.LocalClock
import Lodestar.Chain.SeenCaches
import Lodestar.Eth1.Eth1Vote
import Lodestar.ForkChoice.Blocks
import Lodestar.StateTransition.Domains
import Lodestar.StateTransition.ProcessAttestation

/-!
# Blocks from gossip

`chain/validation/block.ts`. The clock and the fork choice are read before the
first await; the state of the block, the check of its signature and the start
of its slot are awaited.
-/

namespace Lodestar.Chain

open Lodestar.Base Lodestar.StateTransition
open Lodestar.Eth1 (computeTimeAtSlot)
open Lodestar.ForkChoice (ExecutionPayload ExecutionPayloadHeader IProtoBlock isExecutionEnabled)

/-! ## Objects -/

/-- `allForks.BeaconBlock`, with its root. -/
structure GossipBlock where
  slot : Nat
  proposerIndex : Nat
  parentRoot : Root
  /-- `body.executionPayload`, which only bellatrix blocks have. -/
  executionPayload : Option ExecutionPayload
  hashTreeRoot : Root

/-- `allForks.SignedBeaconBlock`. -/
structure SignedGossipBlock where
  message : GossipBlock
  signature : BLSSignature

/-- The clock and the fork choice, as the validation finds them, and the genesis. -/
structure GossipBlockChain where
  config : ChainConfig
  genesisTime : Nat
  clock : GossipClock
  /-- `forkChoice.getFinalizedCheckpoint`. -/
  finalizedCheckpoint : Checkpoint
  getBlockHex : RootHex → Option IProtoBlock

/-- The state of a block's slot; only bellatrix states have a payload header. -/
structure BlockSlotState [Preset] (β : Type) extends CachedBeaconStateAllForks β where
  latestExecutionPayloadHeader : Option ExecutionPayloadHeader

/-! ## Errors -/

/-- `BlockErrorType`, the errors that are thrown. -/
inductive BlockErrorType where
  | FUTURE_SLOT (currentSlot : Int) (blockSlot : Nat)
  | WOULD_REVERT_FINALIZED_SLOT (blockSlot finalizedSlot : Nat)
  | ALREADY_KNOWN (root : RootHex)
  | REPEAT_PROPOSAL (proposerIndex : Nat)
  | PARENT_UNKNOWN (parentRoot : RootHex)
  | NOT_LATER_THAN_PARENT (parentSlot slot : Nat)
  | INCORRECT_TIMESTAMP (timestamp expectedTimestamp : Nat)
  | PROPOSAL_SIGNATURE_INVALID
  | INCORRECT_PROPOSER (proposerIndex : Nat)
  deriving DecidableEq

/-- What the validation throws: a `BlockGossipError`, or the error of a function it calls. -/
inductive GossipBlockError where
  | blockGossipError (action : GossipAction) (type : BlockErrorType)
  | error (message : String)
  deriving DecidableEq

/-! ## The validation -/

/-- What the validation awaits. -/
inductive GossipBlockQuery where
  | getBlockSlotState (parentRoot : RootHex) (slot : Nat)
  /-- `bls.verifySignatureSets`, of the signature of the proposer. -/
  | verifySignatureSets (signedBlock : SignedGossipBlock)
  | sleep (ms : Int)

section

variable [Preset] {β : Type}

/-- The answers; an error is a promise that rejects. With the check of the signature comes
`Date.now()`. -/
abbrev GossipBlockAnswer (β : Type) : GossipBlockQuery → Type
  | .getBlockSlotState .. => Except String (BlockSlotState β)
  | .verifySignatureSets _ => Except String Bool × Int
  | .sleep _ => Unit

/-- An async function of the chain on its `seenBlockProposers`. -/
abbrev GossipBlockTask (β : Type) (α : Type) : Type :=
  Async SeenBlockProposers GossipBlockQuery (GossipBlockAnswer β) GossipBlockError α

def verifyBlockSlot (chain : GossipBlockChain) (block : GossipBlock) :
    Except GossipBlockError Unit := do
  let currentSlotWithGossipDisparity := chain.clock.currentSlotWithGossipDisparity
  if currentSlotWithGossipDisparity < block.slot then
    throw (.blockGossipError .IGNORE (.FUTURE_SLOT currentSlotWithGossipDisparity block.slot))
  let finalizedSlot := computeStartSlotAtEpoch chain.finalizedCheckpoint.epoch
  if block.slot ≤ finalizedSlot then
    throw (.blockGossipError .IGNORE (.WOULD_REVERT_FINALIZED_SLOT block.slot finalizedSlot))
  if (chain.getBlockHex block.hashTreeRoot).isSome then
    throw (.blockGossipError .IGNORE (.ALREADY_KNOWN block.hashTreeRoot))

/-- No block of the proposer has been seen for the slot. -/
def verifyProposerNotKnown (block : GossipBlock) (seenBlockProposers : SeenBlockProposers) :
    Except GossipBlockError Unit :=
  if seenBlockProposers.isKnown block.slot block.proposerIndex then
    .error (.blockGossipError .IGNORE (.REPEAT_PROPOSAL block.proposerIndex))
  else .ok ()

def verifyParent (chain : GossipBlockChain) (block : GossipBlock) :
    Except GossipBlockError Unit :=
  match chain.getBlockHex block.parentRoot with
  | none => .error (.blockGossipError .IGNORE (.PARENT_UNKNOWN block.parentRoot))
  | some parentBlock =>
    if parentBlock.slot ≥ block.slot then
      .error (.blockGossipError .IGNORE (.NOT_LATER_THAN_PARENT parentBlock.slot block.slot))
    else .ok ()

/-- The `catch` of `regen.getBlockSlotState`. -/
def gossipBlockState (block : GossipBlock) (answer : Except String (BlockSlotState β)) :
    Except GossipBlockError (BlockSlotState β) :=
  answer.mapError fun _ => .blockGossipError .IGNORE (.PARENT_UNKNOWN block.parentRoot)

/-- The checks of blocks from bellatrix. -/
def verifyTimestamp (chain : GossipBlockChain) (block : GossipBlock) (fork : ForkName)
    (blockState : BlockSlotState β) : Except GossipBlockError Unit := do
  if fork = .bellatrix then
    match block.executionPayload with
    | none => throw (.error "Not merge block type")
    | some executionPayload =>
      match blockState.latestExecutionPayloadHeader with
      | none => pure ()
      | some header =>
        let expectedTimestamp := computeTimeAtSlot chain.config block.slot chain.genesisTime
        if isExecutionEnabled header executionPayload ∧
            executionPayload.timestamp ≠ expectedTimestamp then
          throw (.blockGossipError .REJECT
            (.INCORRECT_TIMESTAMP executionPayload.timestamp expectedTimestamp))

def verifyProposerSignature (answer : Except String Bool) : Except GossipBlockError Unit := do
  let valid ← answer.mapError .error
  if ¬ valid then throw (.blockGossipError .REJECT .PROPOSAL_SIGNATURE_INVALID)

def verifyProposer (block : GossipBlock) (blockState : BlockSlotState β) :
    Except GossipBlockError Unit := do
  let proposerIndex ←
    (getBeaconProposer blockState.toCachedBeaconStateAllForks block.slot).mapError .error
  if proposerIndex ≠ block.proposerIndex then
    throw (.blockGossipError .REJECT (.INCORRECT_PROPOSER block.proposerIndex))

def addProposer (block : GossipBlock) (seen : SeenBlockProposers) :
    Except GossipBlockError (Unit × SeenBlockProposers) :=
  ((seen.add block.slot block.proposerIndex).map ((), ·)).mapError .error

/-- A block that is early is held until its slot starts, as in a pending queue. -/
def holdEarlyBlock (msToBlockSlot : Int) : GossipBlockTask β Unit :=
  if msToBlockSlot ≤ MAXIMUM_GOSSIP_CLOCK_DISPARITY ∧ msToBlockSlot > 0 then
    Async.await (GossipBlockQuery.sleep msToBlockSlot)
  else pure ()

def validateGossipBlock (chain : GossipBlockChain) (signedBlock : SignedGossipBlock)
    (fork : ForkName) : GossipBlockTask β Unit := do
  let block := signedBlock.message
  Async.lift (verifyBlockSlot chain block)
  Async.read (verifyProposerNotKnown block)
  Async.lift (verifyParent chain block)
  let answer ← Async.await (GossipBlockQuery.getBlockSlotState block.parentRoot block.slot)
  let blockState ← Async.lift (gossipBlockState block answer)
  Async.lift (verifyTimestamp chain block fork blockState)
  let answer ← Async.await (GossipBlockQuery.verifySignatureSets signedBlock)
  Async.lift (verifyProposerSignature answer.1)
  Async.lift (verifyProposer block blockState)
  -- another block of the proposer may have been seen meanwhile
  Async.read (verifyProposerNotKnown block)
  holdEarlyBlock (computeTimeAtSlot chain.config block.slot chain.genesisTime * 1000 - answer.2)
  Async.sync (addProposer block)

/-- The arguments of `validateGossipBlock`. -/
structure GossipBlockCall where
  chain : GossipBlockChain
  signedBlock : SignedGossipBlock
  fork : ForkName

def GossipBlockCall.validate (β : Type) (args : GossipBlockCall) : GossipBlockTask β Unit :=
  validateGossipBlock args.chain args.signedBlock args.fork

end

end Lodestar.Chain

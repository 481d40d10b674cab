import Lodestar.StateTransition.State

/-!
# Blocks and states as the fork choice reads them

The parts of `allForks.BeaconBlock`, of `allForks.BeaconState` and of an
`IndexedAttestation` that `ForkChoice` reads, and `bellatrix/utils.ts`.
-/

namespace Lodestar.ForkChoice

open Lodestar.StateTransition

/-! ## Execution payloads -/

/-- The fields that `bellatrix.ExecutionPayload` and its header share. -/
structure ExecutionPayloadFields where
  parentHash : Root
  feeRecipient : BitVec 160
  stateRoot : Root
  receiptsRoot : Root
  logsBloom : BitVec 2048
  prevRandao : Root
  blockNumber : Nat
  gasLimit : Nat
  gasUsed : Nat
  timestamp : Nat
  extraData : List (BitVec 8)
  baseFeePerGas : Nat
  blockHash : Root
  deriving DecidableEq

structure ExecutionPayload extends ExecutionPayloadFields where
  transactions : List (List (BitVec 8))
  deriving DecidableEq

structure ExecutionPayloadHeader extends ExecutionPayloadFields where
  transactionsRoot : Root
  deriving DecidableEq

def ExecutionPayloadFields.defaultValue : ExecutionPayloadFields where
  parentHash := 0
  feeRecipient := 0
  stateRoot := 0
  receiptsRoot := 0
  logsBloom := 0
  prevRandao := 0
  blockNumber := 0
  gasLimit := 0
  gasUsed := 0
  timestamp := 0
  extraData := []
  baseFeePerGas := 0
  blockHash := 0

def ExecutionPayload.defaultValue : ExecutionPayload where
  toExecutionPayloadFields := .defaultValue
  transactions := []

def ExecutionPayloadHeader.defaultValue : ExecutionPayloadHeader where
  toExecutionPayloadFields := .defaultValue
  transactionsRoot := 0

/-! ## Blocks, states and attestations -/

structure BeaconBlock where
  slot : Nat
  parentRoot : Root
  stateRoot : Root
  /-- `body.executionPayload`, which only bellatrix blocks have. -/
  executionPayload : Option ExecutionPayload
  /-- `config.getForkTypes(slot).BeaconBlock.hashTreeRoot(block)`. -/
  hashTreeRoot : Root

structure BeaconState [Preset] where
  slot : Nat
  blockRoots : Vector Root SLOTS_PER_HISTORICAL_ROOT
  currentJustifiedCheckpoint : Checkpoint
  finalizedCheckpoint : Checkpoint
  /-- Only bellatrix states have one. -/
  latestExecutionPayloadHeader : Option ExecutionPayloadHeader

structure IndexedAttestation where
  attestingIndices : List Nat
  data : AttestationData
  /-- The root of the tree behind the data, if it is tree backed. -/
  dataTreeRoot : Option Root

/-! ## The merge -/

def isMergeTransitionComplete (latestExecutionPayloadHeader : ExecutionPayloadHeader) : Bool :=
  latestExecutionPayloadHeader ≠ .defaultValue

/-- A bellatrix state and block are past the merge, or the block carries it out. -/
def isExecutionEnabled (latestExecutionPayloadHeader : ExecutionPayloadHeader)
    (executionPayload : ExecutionPayload) : Bool :=
  isMergeTransitionComplete latestExecutionPayloadHeader || executionPayload ≠ .defaultValue

/-- The block carries out the merge. -/
def isMergeTransitionBlock (latestExecutionPayloadHeader : ExecutionPayloadHeader)
    (executionPayload : ExecutionPayload) : Bool :=
  !isMergeTransitionComplete latestExecutionPayloadHeader && executionPayload ≠ .defaultValue

end Lodestar.ForkChoice

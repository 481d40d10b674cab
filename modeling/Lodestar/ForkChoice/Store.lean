import Lodestar.ForkChoice.Blocks
import Lodestar.ForkChoice.Interface

/-!
# The fork choice store

`forkChoice/store.ts`, `forkChoice/interface.ts` and `forkChoice/errors.ts`.
-/

namespace Lodestar.ForkChoice

open Lodestar.StateTransition

/-! ## The store -/

/-- A checkpoint with its root as a hex string. -/
structure CheckpointWithHex where
  epoch : Nat
  rootHex : RootHex
  deriving DecidableEq, Repr

def toCheckpointWithHex (checkpoint : Checkpoint) : CheckpointWithHex where
  epoch := checkpoint.epoch
  rootHex := checkpoint.root

@[simp] theorem toCheckpointWithHex_epoch (checkpoint : Checkpoint) :
    (toCheckpointWithHex checkpoint).epoch = checkpoint.epoch := rfl

structure IForkChoiceStore where
  currentSlot : Nat
  justifiedCheckpoint : CheckpointWithHex
  finalizedCheckpoint : CheckpointWithHex
  bestJustifiedCheckpoint : CheckpointWithHex
  deriving DecidableEq

/-- The constructor of `ForkChoiceStore`. -/
def ForkChoiceStore (currentSlot : Nat) (justifiedCheckpoint finalizedCheckpoint : Checkpoint) :
    IForkChoiceStore where
  currentSlot
  justifiedCheckpoint := toCheckpointWithHex justifiedCheckpoint
  finalizedCheckpoint := toCheckpointWithHex finalizedCheckpoint
  bestJustifiedCheckpoint := toCheckpointWithHex justifiedCheckpoint

/-! ## What the calls are given -/

/-- Effective balances in increments, by validator index; inactive validators have none. -/
abbrev EffectiveBalanceIncrements := List Nat

structure PowBlockHex where
  blockhash : RootHex
  parentHash : RootHex
  totalDifficulty : Nat

structure OnBlockPrecachedData where
  justifiedBalances : Option EffectiveBalanceIncrements := none
  /-- Seconds from the start of the slot to the block's arrival. -/
  blockDelaySec : Rat
  powBlock : Option PowBlockHex := none
  powBlockParent : Option PowBlockHex := none
  isMergeTransitionBlock : Bool := false
  executionStatus : Option ExecutionStatus := none

/-- An attestation that waits for its slot. -/
structure IQueuedAttestation where
  slot : Nat
  attestingIndices : List Nat
  blockRoot : RootHex
  targetEpoch : Nat
  deriving DecidableEq

/-! ## Errors -/

inductive InvalidBlock where
  | UNKNOWN_PARENT (root : RootHex)
  | FUTURE_SLOT (currentSlot blockSlot : Nat)
  | FINALIZED_SLOT (finalizedSlot blockSlot : Nat)
  | NOT_FINALIZED_DESCENDANT (finalizedRoot blockAncestor : RootHex)
  deriving DecidableEq

inductive InvalidAttestation where
  | EMPTY_AGGREGATION_BITFIELD
  | UNKNOWN_HEAD_BLOCK (beaconBlockRoot : RootHex)
  | BAD_TARGET_EPOCH (target slot : Nat)
  | UNKNOWN_TARGET_ROOT (root : RootHex)
  | FUTURE_EPOCH (attestationEpoch currentEpoch : Nat)
  | PAST_EPOCH (attestationEpoch currentEpoch : Nat)
  | INVALID_TARGET (attestation localRoot : RootHex)
  | ATTESTS_TO_FUTURE_BLOCK (block attestation : Nat)
  deriving DecidableEq

/-- What the methods of `ForkChoice` throw: a `ForkChoiceError`, a `ProtoArrayError` or a plain
`Error`. -/
inductive ForkChoiceError where
  | INVALID_ATTESTATION (err : InvalidAttestation)
  | INVALID_BLOCK (err : InvalidBlock)
  | MISSING_PROTO_ARRAY_BLOCK (root : RootHex)
  | UNKNOWN_ANCESTOR (descendantRoot : RootHex) (ancestorSlot : Nat)
  | INCONSISTENT_ON_TICK (previousSlot time : Nat)
  | ATTEMPT_TO_REVERT_JUSTIFICATION (store state : Nat)
  | UNABLE_TO_SET_JUSTIFIED_CHECKPOINT (error : String)
  | protoArray (error : ProtoArrayError)
  | error (message : String)
  deriving DecidableEq

end Lodestar.ForkChoice

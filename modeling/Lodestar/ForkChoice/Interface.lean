import Lodestar.Types

/-!
# Blocks, nodes and errors of the proto array

`protoArray/interface.ts` and `protoArray/errors.ts`.
-/

namespace Lodestar.ForkChoice

inductive ExecutionStatus where
  | Valid
  | Syncing
  | PreMerge
  deriving DecidableEq, Repr

/-- `BlockExecution`: `PreMerge` comes without a payload hash, the others with one. -/
inductive BlockExecution where
  | valid (executionPayloadBlockHash : RootHex)
  | syncing (executionPayloadBlockHash : RootHex)
  | preMerge
  deriving DecidableEq, Repr

/-- A block that is to be applied to the fork choice. -/
structure IProtoBlock where
  slot : Nat
  blockRoot : RootHex
  parentRoot : RootHex
  stateRoot : RootHex
  /-- The root an attestation's target has if its LMD vote is for this block. -/
  targetRoot : RootHex
  justifiedEpoch : Nat
  justifiedRoot : RootHex
  finalizedEpoch : Nat
  finalizedRoot : RootHex
  execution : BlockExecution
  deriving DecidableEq, Repr

structure IProtoNode extends IProtoBlock where
  parent : Option Nat
  weight : Int
  bestChild : Option Nat
  bestDescendant : Option Nat
  deriving DecidableEq, Repr

/-- The latest message of a validator, with the root its weight counts for now. -/
structure IVoteTracker where
  currentRoot : RootHex
  nextRoot : RootHex
  nextEpoch : Nat
  deriving DecidableEq, Repr

structure ProposerBoost where
  root : RootHex
  score : Int
  deriving DecidableEq, Repr

inductive ProtoArrayError where
  | FINALIZED_NODE_UNKNOWN (root : RootHex)
  | JUSTIFIED_NODE_UNKNOWN (root : RootHex)
  | INVALID_NODE_INDEX (index : Nat)
  | INVALID_BEST_CHILD_INDEX (index : Nat)
  | INVALID_JUSTIFIED_INDEX (index : Nat)
  | INVALID_BEST_DESCENDANT_INDEX (index : Nat)
  | INVALID_PARENT_DELTA (index : Nat)
  | INVALID_NODE_DELTA (index : Nat)
  | INDEX_OVERFLOW (value : String)
  | INVALID_DELTA_LEN (deltas indices : Nat)
  | INVALID_BEST_NODE (startRoot : RootHex) (justifiedEpoch finalizedEpoch : Nat)
      (headRoot : RootHex) (headJustifiedEpoch headFinalizedEpoch : Nat)
  deriving DecidableEq, Repr

end Lodestar.ForkChoice

import Lodestar.Base.OrderedMap
import Lodestar.Base.KeyValues
import Lodestar.StateTransition.State

/-!
# Types of the light client server

`chain/lightClient/types.ts`, the containers of `altair` it stores and serves,
and what it reads of an imported block and of its post state.
-/

namespace Lodestar.LightClient

open Lodestar.Base Lodestar.StateTransition

section

variable [Preset]

structure SyncAggregate where
  syncCommitteeBits : Vector Bool SYNC_COMMITTEE_SIZE
  syncCommitteeSignature : BLSSignature
  deriving DecidableEq

structure SyncCommitteeWitness where
  witness : Vector Root 4
  currentSyncCommitteeRoot : Root
  nextSyncCommitteeRoot : Root
  deriving DecidableEq

/-- The finalized half of a `SyncAttestedData`. -/
structure AttestedFinality where
  finalityBranch : Vector Root FINALIZED_ROOT_DEPTH
  finalizedCheckpoint : Checkpoint
  deriving DecidableEq

/-- `isFinalized` is the presence of `finality`. -/
structure SyncAttestedData where
  attestedHeader : BeaconBlockHeader
  blockRoot : Root
  finality : Option AttestedFinality
  deriving DecidableEq

def SyncAttestedData.isFinalized (data : SyncAttestedData) : Bool := data.finality.isSome

/-- What a `PartialLightClientUpdateFinalized` has beyond the other kind. -/
structure FinalizedData extends AttestedFinality where
  finalizedHeader : BeaconBlockHeader
  deriving DecidableEq

/-- `isFinalized` is the presence of `finality`. -/
structure PartialLightClientUpdate where
  attestedHeader : BeaconBlockHeader
  blockRoot : Root
  finality : Option FinalizedData
  syncAggregate : SyncAggregate
  deriving DecidableEq

def PartialLightClientUpdate.isFinalized (update : PartialLightClientUpdate) : Bool :=
  update.finality.isSome

structure LightClientUpdate where
  attestedHeader : BeaconBlockHeader
  nextSyncCommittee : SyncCommittee
  nextSyncCommitteeBranch : Vector Root NEXT_SYNC_COMMITTEE_DEPTH
  finalizedHeader : BeaconBlockHeader
  finalityBranch : Vector Root FINALIZED_ROOT_DEPTH
  syncAggregate : SyncAggregate
  forkVersion : Version
  deriving DecidableEq

/-- `LightclientHeaderUpdate` of the API. -/
structure LightclientHeaderUpdate where
  attestedHeader : BeaconBlockHeader
  syncAggregate : SyncAggregate
  deriving DecidableEq

/-! ## Blocks and states -/

/-- The part of an `altair.BeaconBlock` that the server reads. -/
structure BeaconBlock where
  slot : Nat
  proposerIndex : Nat
  parentRoot : Root
  stateRoot : Root
  syncAggregate : SyncAggregate
  /-- `BeaconBlockBody.hashTreeRoot(block.body)`. -/
  bodyRoot : Root
  /-- `BeaconBlockHeader.hashTreeRoot` of the header of the block. -/
  hashTreeRoot : Root

def BeaconBlock.header (block : BeaconBlock) : BeaconBlockHeader where
  slot := block.slot
  proposerIndex := block.proposerIndex
  parentRoot := block.parentRoot
  stateRoot := block.stateRoot
  bodyRoot := block.bodyRoot

/-- The part of a `CachedBeaconStateAltair` that the server reads. -/
structure BeaconState where
  currentSyncCommittee : SyncCommittee
  nextSyncCommittee : SyncCommittee
  finalizedCheckpoint : Checkpoint
  /-- The roots of the nodes of the tree, by generalized index. -/
  tree : Nat → Root

/-- `parentBlock` of `onImportBlock`. -/
structure ParentBlock where
  blockRoot : RootHex
  slot : Nat

end

/-! ## Proofs -/

/-- `proofs.ts` walks from the root to the children of node 27. -/
def getSyncCommitteesWitness (state : BeaconState) : SyncCommitteeWitness where
  witness := #v[state.tree 26, state.tree 12, state.tree 7, state.tree 2]
  currentSyncCommitteeRoot := state.tree 54
  nextSyncCommitteeRoot := state.tree 55

def getNextSyncCommitteeBranch (syncCommitteesWitness : SyncCommitteeWitness) :
    Vector Root NEXT_SYNC_COMMITTEE_DEPTH :=
  #v[syncCommitteesWitness.currentSyncCommitteeRoot] ++ syncCommitteesWitness.witness

/-- `tree.getSingleProof(FINALIZED_ROOT_GINDEX)`: the siblings from the leaf up. -/
def getFinalizedRootProof (state : BeaconState) : Vector Root FINALIZED_ROOT_DEPTH :=
  Vector.ofFn fun depth => state.tree ((FINALIZED_ROOT_GINDEX / 2 ^ depth.val) ^^^ 1)

end Lodestar.LightClient

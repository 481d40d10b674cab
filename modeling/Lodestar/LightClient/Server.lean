import Lodestar.LightClient.Update

/-!
# The light client server

`LightClientServer` of `chain/lightClient/index.ts`. The steps of an operation
that awaits the database are taken one after the other.
-/

namespace Lodestar.LightClient

open Lodestar.Base Lodestar.StateTransition

def MAX_CACHED_FINALIZED_HEADERS : Nat := 3
def MAX_PREV_HEAD_DATA : Nat := 32

variable [Preset]

/-- The repositories of `IBeaconDb` that the server uses. -/
structure LightClientDb where
  bestPartialLightClientUpdate : Repository Nat PartialLightClientUpdate
  syncCommitteeWitness : Repository Root SyncCommitteeWitness
  syncCommittee : Repository Root SyncCommittee
  checkpointHeader : Repository Root BeaconBlockHeader

def LightClientDb.empty : LightClientDb where
  bestPartialLightClientUpdate := .empty
  syncCommitteeWitness := .empty
  syncCommittee := .empty
  checkpointHeader := .empty

structure LightClientServer where
  db : LightClientDb
  /-- The dependant roots, by period. -/
  knownSyncCommittee : Nat → List RootHex
  storedCurrentSyncCommittee : Bool
  prevHeadData : OrderedMap RootHex SyncAttestedData
  checkpointHeaders : OrderedMap RootHex BeaconBlockHeader
  latestHeadUpdate : Option LightclientHeaderUpdate

inductive LightClientServerError where
  /-- `No partialUpdate available for period ${period}`. -/
  | partialUpdateNotAvailable (period : Nat)
  /-- `finalizedBlockRoot not available ${root}`, whichever block the root is of. -/
  | finalizedBlockRootNotAvailable (root : Root)
  /-- `nextSyncCommittee not available`. -/
  | nextSyncCommitteeNotAvailable
  /-- `attestedData not available`. -/
  | attestedDataNotAvailable
  deriving DecidableEq

/-- The root of the witness that `getCommitteeUpdates` reads for the update. -/
def PartialLightClientUpdate.syncCommitteeWitnessBlockRoot (update : PartialLightClientUpdate) :
    Root :=
  match update.finality with
  | some finality => finality.finalizedCheckpoint.root
  | none => update.blockRoot

namespace LightClientServer

def new (db : LightClientDb) : LightClientServer where
  db := db
  knownSyncCommittee := fun _ => []
  storedCurrentSyncCommittee := false
  prevHeadData := .empty
  checkpointHeaders := .empty
  latestHeadUpdate := none

/-- `zero`: the finalized part of an update that is not finalized. -/
def zero : BeaconBlockHeader × Vector Root FINALIZED_ROOT_DEPTH :=
  (⟨0, 0, 0, 0, 0⟩, Vector.replicate _ 0)

def getCommitteeUpdates (this : LightClientServer) (config : ChainConfig) (period : Nat) :
    Except LightClientServerError LightClientUpdate :=
  match this.db.bestPartialLightClientUpdate period with
  | none => .error (.partialUpdateNotAvailable period)
  | some partialUpdate =>
    match this.db.syncCommitteeWitness partialUpdate.syncCommitteeWitnessBlockRoot with
    | none => .error (.finalizedBlockRootNotAvailable partialUpdate.syncCommitteeWitnessBlockRoot)
    | some syncCommitteeWitness =>
      match this.db.syncCommittee syncCommitteeWitness.nextSyncCommitteeRoot with
      | none => .error .nextSyncCommitteeNotAvailable
      | some nextSyncCommittee => .ok {
          attestedHeader := partialUpdate.attestedHeader
          nextSyncCommittee := nextSyncCommittee
          nextSyncCommitteeBranch := getNextSyncCommitteeBranch syncCommitteeWitness
          finalizedHeader := (partialUpdate.finality.map (·.finalizedHeader)).getD zero.1
          finalityBranch := (partialUpdate.finality.map (·.finalityBranch)).getD zero.2
          syncAggregate := partialUpdate.syncAggregate
          forkVersion := getForkVersion config partialUpdate.attestedHeader.slot }

def pruneNonCheckpointData (this : LightClientServer) (nonCheckpointBlockRoots : List Root) :
    LightClientServer :=
  { this with db := { this.db with
      syncCommitteeWitness := this.db.syncCommitteeWitness.batchDelete nonCheckpointBlockRoots
      checkpointHeader := this.db.checkpointHeader.batchDelete nonCheckpointBlockRoots } }

/-! ## The best update of a period -/

/-- From the cache, or from the database into the cache. -/
def getFinalizedHeader (this : LightClientServer) (finalizedBlockRoot : Root) :
    Option BeaconBlockHeader × LightClientServer :=
  match this.checkpointHeaders.get finalizedBlockRoot with
  | some cachedFinalizedHeader => (some cachedFinalizedHeader, this)
  | none =>
    match this.db.checkpointHeader finalizedBlockRoot with
    | none => (none, this)
    | some finalizedHeader =>
      let checkpointHeaders := this.checkpointHeaders.set finalizedBlockRoot finalizedHeader
      (some finalizedHeader, { this with
        checkpointHeaders := checkpointHeaders.pruneToMax MAX_CACHED_FINALIZED_HEADERS })

/-- The update that is stored for the pair, and the server after the header was looked up. -/
def newPartialUpdate (this : LightClientServer) (syncAggregate : SyncAggregate)
    (attestedData : SyncAttestedData) : PartialLightClientUpdate × LightClientServer :=
  let update (finality : Option FinalizedData) : PartialLightClientUpdate :=
    { attestedHeader := attestedData.attestedHeader
      blockRoot := attestedData.blockRoot
      finality := finality
      syncAggregate := syncAggregate }
  match attestedData.finality with
  | none => (update none, this)
  | some finality =>
    let (finalizedHeader, this) := this.getFinalizedHeader finality.finalizedCheckpoint.root
    -- without the header, which happens on startup, the update is not a finalized one
    (update (finalizedHeader.map fun header => ⟨finality, header⟩), this)

/-- The stored update of the period stays: there is one and the next is not better. -/
def keepsBestPartialUpdate (this : LightClientServer) (syncAggregate : SyncAggregate)
    (attestedData : SyncAttestedData) : Bool :=
  match this.db.bestPartialLightClientUpdate
      (computeSyncPeriodAtSlot attestedData.attestedHeader.slot) with
  | none => false
  | some prevBestUpdate => !isBetterUpdate prevBestUpdate syncAggregate attestedData

def maybeStoreNewBestPartialUpdate (this : LightClientServer) (syncAggregate : SyncAggregate)
    (attestedData : SyncAttestedData) : LightClientServer :=
  if this.keepsBestPartialUpdate syncAggregate attestedData then this
  else
    let (newPartialUpdate, this) := this.newPartialUpdate syncAggregate attestedData
    let period := computeSyncPeriodAtSlot attestedData.attestedHeader.slot
    { this with db := { this.db with
      bestPartialLightClientUpdate :=
        this.db.bestPartialLightClientUpdate.put period newPartialUpdate } }

/-- The update of the latest header, for `getHeadUpdate`. -/
def updateLatestHeadUpdate (this : LightClientServer) (headerUpdate : LightclientHeaderUpdate) :
    LightClientServer :=
  match this.latestHeadUpdate with
  | none => { this with latestHeadUpdate := some headerUpdate }
  | some latest =>
    if headerUpdate.attestedHeader.slot > latest.attestedHeader.slot then
      { this with latestHeadUpdate := some headerUpdate }
    else this

def onSyncAggregate (this : LightClientServer) (syncAggregate : SyncAggregate)
    (signedBlockRoot : Root) : Except LightClientServerError LightClientServer :=
  match this.prevHeadData.get signedBlockRoot with
  | none => if this.prevHeadData.size = 0 then .ok this else .error .attestedDataNotAvailable
  | some attestedData =>
    let this := this.updateLatestHeadUpdate ⟨attestedData.attestedHeader, syncAggregate⟩
    .ok (this.maybeStoreNewBestPartialUpdate syncAggregate attestedData)

/-! ## Imported blocks -/

def storeSyncCommittee (this : LightClientServer) (syncCommittee : SyncCommittee)
    (syncCommitteeRoot : Root) : LightClientServer :=
  if this.db.syncCommittee.has syncCommitteeRoot then this
  else { this with db := { this.db with
    syncCommittee := this.db.syncCommittee.put syncCommitteeRoot syncCommittee } }

/-- The first block of a run brings both committees. -/
def storeCurrentSyncCommittee (this : LightClientServer) (postState : BeaconState) :
    LightClientServer :=
  let syncCommitteeWitness := getSyncCommitteesWitness postState
  if this.storedCurrentSyncCommittee then this
  else
    let this := this.storeSyncCommittee postState.currentSyncCommittee
      syncCommitteeWitness.currentSyncCommitteeRoot
    let this := this.storeSyncCommittee postState.nextSyncCommittee
      syncCommitteeWitness.nextSyncCommitteeRoot
    { this with storedCurrentSyncCommittee := true }

/-- The block is the first of its period on a parent that no such block had before. -/
def isNewDependantRoot (this : LightClientServer) (block : BeaconBlock)
    (parentBlock : ParentBlock) : Bool :=
  computeSyncPeriodAtSlot parentBlock.slot < computeSyncPeriodAtSlot block.slot &&
    !(this.knownSyncCommittee (computeSyncPeriodAtSlot block.slot)).contains parentBlock.blockRoot

/-- Once for each dependant root. -/
def storeNextSyncCommittee (this : LightClientServer) (block : BeaconBlock)
    (postState : BeaconState) (parentBlock : ParentBlock) : LightClientServer :=
  let period := computeSyncPeriodAtSlot block.slot
  if this.isNewDependantRoot block parentBlock then
    let periodDependantRoots := this.knownSyncCommittee period ++ [parentBlock.blockRoot]
    let this := { this with
      knownSyncCommittee := Function.update this.knownSyncCommittee period periodDependantRoots }
    this.storeSyncCommittee postState.nextSyncCommittee
      (getSyncCommitteesWitness postState).nextSyncCommitteeRoot
  else this

/-- The data that a sync aggregate on the block attests. -/
def attestedData (block : BeaconBlock) (postState : BeaconState) : SyncAttestedData :=
  let finalizedCheckpoint := postState.finalizedCheckpoint
  -- the finalized checkpoint of the genesis state is zeroed and has no header
  let isFinalized :=
    computeSyncPeriodAtEpoch finalizedCheckpoint.epoch = computeSyncPeriodAtSlot block.slot ∧
      finalizedCheckpoint.epoch ≠ 0 ∧ finalizedCheckpoint.root ≠ HEX_ZERO_HASH
  { attestedHeader := block.header
    blockRoot := block.hashTreeRoot
    finality := if isFinalized then
      some ⟨getFinalizedRootProof postState, finalizedCheckpoint⟩ else none }

def persistPostBlockImportData (this : LightClientServer) (block : BeaconBlock)
    (postState : BeaconState) (parentBlock : ParentBlock) : LightClientServer :=
  let blockRoot := block.hashTreeRoot
  let this := this.storeCurrentSyncCommittee postState
  let this := this.storeNextSyncCommittee block postState parentBlock
  { this with
    db := { this.db with
      syncCommitteeWitness :=
        this.db.syncCommitteeWitness.put blockRoot (getSyncCommitteesWitness postState)
      checkpointHeader := this.db.checkpointHeader.put blockRoot block.header }
    prevHeadData := (this.prevHeadData.set blockRoot (attestedData block postState)).pruneToMax
      MAX_PREV_HEAD_DATA }

/-- The errors of the two halves are caught and logged. -/
def onImportBlock (this : LightClientServer) (block : BeaconBlock) (postState : BeaconState)
    (parentBlock : ParentBlock) : LightClientServer :=
  let this := match this.onSyncAggregate block.syncAggregate block.parentRoot with
    | .ok this => this
    | .error _ => this
  this.persistPostBlockImportData block postState parentBlock

end LightClientServer

end Lodestar.LightClient

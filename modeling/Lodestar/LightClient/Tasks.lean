import Lodestar.Base.Interleave
import Lodestar.LightClient.Server

/-!
# Tasks of the light client server

`onImportBlock` starts two tasks and waits for neither. What a task does
between two awaits is split into operations as well, so the schedules of these
operations contain those of the event loop. Alone, a task does what the
operation of the server does.
-/

namespace Lodestar.LightClient

open Lodestar.Base Lodestar.StateTransition

variable [Preset]

/-! ## Operations -/

/-- The awaited reads and writes of the database, and those of the memory of the server. -/
inductive ServerOp where
  | bestPartialUpdateGet (period : Nat)
  | bestPartialUpdatePut (period : Nat) (update : PartialLightClientUpdate)
  | checkpointHeaderGet (root : Root)
  | checkpointHeaderPut (root : Root) (header : BeaconBlockHeader)
  | syncCommitteeHas (root : Root)
  | syncCommitteePut (root : Root) (syncCommittee : SyncCommittee)
  | syncCommitteeWitnessPut (root : Root) (witness : SyncCommitteeWitness)
  | prevHeadDataGet (root : RootHex)
  | prevHeadDataSize
  | prevHeadDataSet (root : RootHex) (data : SyncAttestedData)
  | latestHeadUpdate (headerUpdate : LightclientHeaderUpdate)
  | cachedFinalizedHeader (root : RootHex)
  | cacheFinalizedHeader (root : RootHex) (header : BeaconBlockHeader)
  | storedCurrentSyncCommittee
  | setStoredCurrentSyncCommittee
  /-- Adds a root to `knownSyncCommittee`, and tells if it was there. -/
  | addDependantRoot (period : Nat) (root : RootHex)

def ServerOp.Resp : ServerOp → Type
  | .bestPartialUpdateGet _ => Option PartialLightClientUpdate
  | .checkpointHeaderGet _ | .cachedFinalizedHeader _ => Option BeaconBlockHeader
  | .prevHeadDataGet _ => Option SyncAttestedData
  | .prevHeadDataSize => Nat
  | .syncCommitteeHas _ | .storedCurrentSyncCommittee | .addDependantRoot .. => Bool
  | .bestPartialUpdatePut .. | .checkpointHeaderPut .. | .syncCommitteePut ..
  | .syncCommitteeWitnessPut .. | .prevHeadDataSet .. | .latestHeadUpdate _
  | .cacheFinalizedHeader .. | .setStoredCurrentSyncCommittee => Unit

/-- `periodDependantRoots.add`. -/
def LightClientServer.addDependantRoot (this : LightClientServer) (period : Nat) (root : RootHex) :
    LightClientServer :=
  if (this.knownSyncCommittee period).contains root then this
  else { this with
    knownSyncCommittee := Function.update this.knownSyncCommittee period
      (this.knownSyncCommittee period ++ [root]) }

/-- What an operation answers and does. -/
def ServerOp.act : (o : ServerOp) → LightClientServer → o.Resp × LightClientServer
  | .bestPartialUpdateGet period, this => (this.db.bestPartialLightClientUpdate period, this)
  | .bestPartialUpdatePut period update, this =>
    ((), { this with db := { this.db with
      bestPartialLightClientUpdate := this.db.bestPartialLightClientUpdate.put period update } })
  | .checkpointHeaderGet root, this => (this.db.checkpointHeader root, this)
  | .checkpointHeaderPut root header, this =>
    ((), { this with db := { this.db with
      checkpointHeader := this.db.checkpointHeader.put root header } })
  | .syncCommitteeHas root, this => (this.db.syncCommittee.has root, this)
  | .syncCommitteePut root syncCommittee, this =>
    ((), { this with db := { this.db with
      syncCommittee := this.db.syncCommittee.put root syncCommittee } })
  | .syncCommitteeWitnessPut root witness, this =>
    ((), { this with db := { this.db with
      syncCommitteeWitness := this.db.syncCommitteeWitness.put root witness } })
  | .prevHeadDataGet root, this => (this.prevHeadData.get root, this)
  | .prevHeadDataSize, this => (this.prevHeadData.size, this)
  | .prevHeadDataSet root data, this =>
    ((), { this with
      prevHeadData := (this.prevHeadData.set root data).pruneToMax MAX_PREV_HEAD_DATA })
  | .latestHeadUpdate headerUpdate, this => ((), this.updateLatestHeadUpdate headerUpdate)
  | .cachedFinalizedHeader root, this => (this.checkpointHeaders.get root, this)
  | .cacheFinalizedHeader root header, this =>
    let checkpointHeaders := this.checkpointHeaders.set root header
    ((), { this with
      checkpointHeaders := checkpointHeaders.pruneToMax MAX_CACHED_FINALIZED_HEADERS })
  | .storedCurrentSyncCommittee, this => (this.storedCurrentSyncCommittee, this)
  | .setStoredCurrentSyncCommittee, this => ((), { this with storedCurrentSyncCommittee := true })
  | .addDependantRoot period root, this =>
    ((this.knownSyncCommittee period).contains root, this.addDependantRoot period root)

/-- The async functions of the server. -/
abbrev ServerTask (α : Type) := Prog ServerOp ServerOp.Resp LightClientServerError α

abbrev TaskEvent := Event ServerOp ServerOp.Resp

abbrev ServerTask.op (o : ServerOp) : ServerTask o.Resp := Prog.op o

namespace ServerTask

/-! ## Reads -/

def bestPartialUpdate (period : Nat) : ServerTask (Option PartialLightClientUpdate) :=
  op (.bestPartialUpdateGet period)

def checkpointHeader (root : Root) : ServerTask (Option BeaconBlockHeader) :=
  op (.checkpointHeaderGet root)

def cachedFinalizedHeader (root : RootHex) : ServerTask (Option BeaconBlockHeader) :=
  op (.cachedFinalizedHeader root)

def prevHeadData (root : RootHex) : ServerTask (Option SyncAttestedData) :=
  op (.prevHeadDataGet root)

def prevHeadDataSize : ServerTask Nat := op .prevHeadDataSize

def hasSyncCommittee (root : Root) : ServerTask Bool := op (.syncCommitteeHas root)

def storedCurrentSyncCommittee : ServerTask Bool := op .storedCurrentSyncCommittee

def addDependantRoot (period : Nat) (root : RootHex) : ServerTask Bool :=
  op (.addDependantRoot period root)

/-! ## The sync aggregate -/

def getFinalizedHeader (finalizedBlockRoot : Root) : ServerTask (Option BeaconBlockHeader) := do
  match ← cachedFinalizedHeader finalizedBlockRoot with
  | some cachedHeader => return some cachedHeader
  | none =>
    match ← checkpointHeader finalizedBlockRoot with
    | none => return none
    | some finalizedHeader =>
      let _ ← op (.cacheFinalizedHeader finalizedBlockRoot finalizedHeader)
      return some finalizedHeader

/-- The update that is stored for the pair. -/
def newPartialUpdate (syncAggregate : SyncAggregate) (attestedData : SyncAttestedData) :
    ServerTask PartialLightClientUpdate := do
  let update (finality : Option FinalizedData) : PartialLightClientUpdate :=
    { attestedHeader := attestedData.attestedHeader
      blockRoot := attestedData.blockRoot
      finality := finality
      syncAggregate := syncAggregate }
  match attestedData.finality with
  | none => return update none
  | some finality =>
    let finalizedHeader ← getFinalizedHeader finality.finalizedCheckpoint.root
    return update (finalizedHeader.map fun header => ⟨finality, header⟩)

/-- Reads, compares and puts. -/
def maybeStoreNewBestPartialUpdate (syncAggregate : SyncAggregate)
    (attestedData : SyncAttestedData) : ServerTask Unit := do
  let period := computeSyncPeriodAtSlot attestedData.attestedHeader.slot
  let store : ServerTask Unit := do
    let newPartialUpdate ← newPartialUpdate syncAggregate attestedData
    let _ ← op (.bestPartialUpdatePut period newPartialUpdate)
    return ()
  match ← bestPartialUpdate period with
  | none => store
  | some prevBestUpdate =>
    if !isBetterUpdate prevBestUpdate syncAggregate attestedData then return ()
    else store

def onSyncAggregate (syncAggregate : SyncAggregate) (signedBlockRoot : Root) : ServerTask Unit := do
  match ← prevHeadData signedBlockRoot with
  | none =>
    if (← prevHeadDataSize) = 0 then return () else throw .attestedDataNotAvailable
  | some attestedData =>
    let _ ← op (.latestHeadUpdate ⟨attestedData.attestedHeader, syncAggregate⟩)
    maybeStoreNewBestPartialUpdate syncAggregate attestedData

/-! ## The data of the block -/

def storeSyncCommittee (syncCommittee : SyncCommittee) (syncCommitteeRoot : Root) : ServerTask Unit := do
  if ← hasSyncCommittee syncCommitteeRoot then return ()
  else
    let _ ← op (.syncCommitteePut syncCommitteeRoot syncCommittee)

/-- The two halves of the `Promise.all` one after the other. -/
def storeCurrentSyncCommittee (postState : BeaconState) : ServerTask Unit := do
  let syncCommitteeWitness := getSyncCommitteesWitness postState
  if ← storedCurrentSyncCommittee then return ()
  else
    storeSyncCommittee postState.currentSyncCommittee syncCommitteeWitness.currentSyncCommitteeRoot
    storeSyncCommittee postState.nextSyncCommittee syncCommitteeWitness.nextSyncCommitteeRoot
    let _ ← op .setStoredCurrentSyncCommittee

def storeNextSyncCommittee (block : BeaconBlock) (postState : BeaconState)
    (parentBlock : ParentBlock) : ServerTask Unit := do
  let period := computeSyncPeriodAtSlot block.slot
  if computeSyncPeriodAtSlot parentBlock.slot < period then
    if ← addDependantRoot period parentBlock.blockRoot then return ()
    else
      storeSyncCommittee postState.nextSyncCommittee
        (getSyncCommitteesWitness postState).nextSyncCommitteeRoot
  else return ()

def persistPostBlockImportData (block : BeaconBlock) (postState : BeaconState)
    (parentBlock : ParentBlock) : ServerTask Unit := do
  let blockRoot := block.hashTreeRoot
  storeCurrentSyncCommittee postState
  storeNextSyncCommittee block postState parentBlock
  let _ ← op (.syncCommitteeWitnessPut blockRoot (getSyncCommitteesWitness postState))
  let _ ← op (.checkpointHeaderPut blockRoot block.header)
  let _ ← op (.prevHeadDataSet blockRoot (LightClientServer.attestedData block postState))

/-! ## Alone -/

variable (this : LightClientServer)

theorem run_cachedFinalizedHeader (root : Root) :
    (cachedFinalizedHeader root).run ServerOp.act this =
      (.ok (this.checkpointHeaders.get root), this) := rfl

theorem run_checkpointHeader (root : Root) :
    (checkpointHeader root).run ServerOp.act this = (.ok (this.db.checkpointHeader root), this) := rfl

theorem run_bestPartialUpdate (period : Nat) :
    (bestPartialUpdate period).run ServerOp.act this =
      (.ok (this.db.bestPartialLightClientUpdate period), this) := rfl

theorem run_prevHeadData (root : Root) :
    (prevHeadData root).run ServerOp.act this = (.ok (this.prevHeadData.get root), this) := rfl

theorem run_addDependantRoot (period : Nat) (root : Root) :
    (addDependantRoot period root).run ServerOp.act this =
      (.ok ((this.knownSyncCommittee period).contains root), this.addDependantRoot period root) :=
  rfl

theorem run_getFinalizedHeader (root : Root) :
    (getFinalizedHeader root).run ServerOp.act this =
      (.ok (this.getFinalizedHeader root).1, (this.getFinalizedHeader root).2) := by
  unfold getFinalizedHeader LightClientServer.getFinalizedHeader
  rw [Prog.run_bind_ok (run_cachedFinalizedHeader this root)]
  cases this.checkpointHeaders.get root with
  | some header => rfl
  | none =>
    dsimp only
    rw [Prog.run_bind_ok (run_checkpointHeader this root)]
    cases this.db.checkpointHeader root with
    | none => rfl
    | some header => rfl

theorem run_newPartialUpdate (syncAggregate : SyncAggregate) (attestedData : SyncAttestedData) :
    (newPartialUpdate syncAggregate attestedData).run ServerOp.act this =
      (.ok (this.newPartialUpdate syncAggregate attestedData).1,
        (this.newPartialUpdate syncAggregate attestedData).2) := by
  unfold newPartialUpdate LightClientServer.newPartialUpdate
  dsimp only
  cases attestedData.finality with
  | none => rfl
  | some finality => exact Prog.run_bind_ok (run_getFinalizedHeader this _)

theorem run_maybeStoreNewBestPartialUpdate (syncAggregate : SyncAggregate)
    (attestedData : SyncAttestedData) :
    (maybeStoreNewBestPartialUpdate syncAggregate attestedData).run ServerOp.act this =
      (.ok (), this.maybeStoreNewBestPartialUpdate syncAggregate attestedData) := by
  unfold maybeStoreNewBestPartialUpdate LightClientServer.maybeStoreNewBestPartialUpdate
    LightClientServer.keepsBestPartialUpdate
  dsimp only
  rw [Prog.run_bind_ok (run_bestPartialUpdate this _)]
  cases this.db.bestPartialLightClientUpdate
      (computeSyncPeriodAtSlot attestedData.attestedHeader.slot) with
  | none => exact Prog.run_bind_ok (run_newPartialUpdate this syncAggregate attestedData)
  | some prevBestUpdate =>
    dsimp only
    by_cases hkeeps : (!isBetterUpdate prevBestUpdate syncAggregate attestedData) = true
    · rw [if_pos hkeeps, if_pos hkeeps]
      rfl
    · rw [if_neg hkeeps, if_neg hkeeps]
      exact Prog.run_bind_ok (run_newPartialUpdate this syncAggregate attestedData)

theorem run_onSyncAggregate (syncAggregate : SyncAggregate) (signedBlockRoot : Root) :
    (onSyncAggregate syncAggregate signedBlockRoot).run ServerOp.act this =
      match this.onSyncAggregate syncAggregate signedBlockRoot with
      | .ok server => (.ok (), server)
      | .error e => (.error e, this) := by
  unfold onSyncAggregate LightClientServer.onSyncAggregate
  rw [Prog.run_bind_ok (run_prevHeadData this _)]
  cases this.prevHeadData.get signedBlockRoot with
  | none =>
    show Prog.run _ (if this.prevHeadData.size = 0 then _ else _) this = _
    by_cases hsize : this.prevHeadData.size = 0
    · rw [if_pos hsize]
      dsimp only
      rw [if_pos hsize]
      rfl
    · rw [if_neg hsize]
      dsimp only
      rw [if_neg hsize]
      rfl
  | some attestedData => exact run_maybeStoreNewBestPartialUpdate _ syncAggregate attestedData

theorem run_storeSyncCommittee (syncCommittee : SyncCommittee) (root : Root) :
    (storeSyncCommittee syncCommittee root).run ServerOp.act this =
      (.ok (), this.storeSyncCommittee syncCommittee root) := by
  unfold LightClientServer.storeSyncCommittee
  show Prog.run _ (if this.db.syncCommittee.has root = true then _ else _) this = _
  split_ifs <;> rfl

theorem run_storeCurrentSyncCommittee (postState : BeaconState) :
    (storeCurrentSyncCommittee postState).run ServerOp.act this =
      (.ok (), this.storeCurrentSyncCommittee postState) := by
  unfold LightClientServer.storeCurrentSyncCommittee
  show Prog.run _ (if this.storedCurrentSyncCommittee = true then _ else _) this = _
  by_cases hstored : this.storedCurrentSyncCommittee = true
  · rw [if_pos hstored]
    dsimp only
    rw [if_pos hstored]
    rfl
  · rw [if_neg hstored]
    dsimp only
    rw [if_neg hstored, Prog.run_bind_ok (run_storeSyncCommittee this _ _),
      Prog.run_bind_ok (run_storeSyncCommittee _ _ _)]
    rfl

theorem run_storeNextSyncCommittee (block : BeaconBlock) (postState : BeaconState)
    (parentBlock : ParentBlock) :
    (storeNextSyncCommittee block postState parentBlock).run ServerOp.act this =
      (.ok (), this.storeNextSyncCommittee block postState parentBlock) := by
  unfold storeNextSyncCommittee LightClientServer.storeNextSyncCommittee
    LightClientServer.isNewDependantRoot
  dsimp only
  by_cases hperiod : computeSyncPeriodAtSlot parentBlock.slot < computeSyncPeriodAtSlot block.slot
  · rw [if_pos hperiod]
    rw [Prog.run_bind_ok (run_addDependantRoot this _ _)]
    unfold LightClientServer.addDependantRoot
    cases hknown : (this.knownSyncCommittee (computeSyncPeriodAtSlot block.slot)).contains
        parentBlock.blockRoot with
    | true =>
      simp only [hperiod, decide_true, Bool.not_true, Bool.and_false]
      rfl
    | false =>
      simp only [hperiod, decide_true, Bool.not_false, Bool.and_true, if_true]
      exact run_storeSyncCommittee _ _ _
  · rw [if_neg hperiod]
    simp only [hperiod, decide_false, Bool.false_and]
    rfl

theorem run_persistPostBlockImportData (block : BeaconBlock) (postState : BeaconState)
    (parentBlock : ParentBlock) :
    (persistPostBlockImportData block postState parentBlock).run ServerOp.act this =
      (.ok (), this.persistPostBlockImportData block postState parentBlock) := by
  unfold persistPostBlockImportData LightClientServer.persistPostBlockImportData
  dsimp only
  rw [Prog.run_bind_ok (run_storeCurrentSyncCommittee this _),
    Prog.run_bind_ok (run_storeNextSyncCommittee _ _ _ _)]
  rfl

end ServerTask

end Lodestar.LightClient

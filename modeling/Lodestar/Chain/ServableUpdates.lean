import Lodestar.Chain.ArchiveBlocks
import Lodestar.ForkChoice.FailedBlock

/-!
# Serving the stored updates

A stored update refers to the witness of a block, and the witness to a sync
committee; both are looked up when the update is asked for. Archiving prunes
witnesses without a look at the updates, and a committee is only stored with
the first block of a run or of a period. `KeepsServable` says of a step that
neither hits a stored update.
-/

namespace Lodestar.Chain

open Lodestar.Base Lodestar.ForkChoice Lodestar.LightClient Lodestar.StateTransition

section Main

variable [Preset] {this : LightClientServer} {block : LightClient.BeaconBlock}
  {postState : LightClient.BeaconState} {parentBlock : ParentBlock}

/-! ## Runs -/

/-- A block is imported, or the blocks up to a finalized one are archived. -/
inductive ServerEvent where
  | importBlock (block : LightClient.BeaconBlock) (postState : LightClient.BeaconState)
      (parentBlock : ParentBlock)
  | archive (db : BlockDb) (forkChoice : ForkChoice) (finalizedCheckpoint : CheckpointWithHex)

def ServerEvent.apply (event : ServerEvent) (this : LightClientServer) : LightClientServer :=
  match event with
  | .importBlock block postState parentBlock => this.onImportBlock block postState parentBlock
  | .archive db forkChoice finalizedCheckpoint =>
    match archiveBlocks db forkChoice this finalizedCheckpoint with
    | .ok (_, this) => this
    | .error _ => this

/-- `getCommitteeUpdates` answers for every period with a stored update. -/
def Servable (this : LightClientServer) : Prop :=
  ∀ config period update, this.db.bestPartialLightClientUpdate period = some update →
    ∃ response, this.getCommitteeUpdates config period = .ok response

/-- What the updates refer to is there. -/
structure Referenced (db : LightClientDb) : Prop where
  witness : ∀ period update, db.bestPartialLightClientUpdate period = some update →
    db.syncCommitteeWitness.has update.syncCommitteeWitnessBlockRoot = true
  committee : ∀ root witness, db.syncCommitteeWitness root = some witness →
    db.syncCommittee.has witness.nextSyncCommitteeRoot = true

theorem referenced_empty : Referenced LightClientDb.empty :=
  ⟨fun _ _ h => absurd h (by simp [LightClientDb.empty, Repository.empty]),
    fun _ _ h => absurd h (by simp [LightClientDb.empty, Repository.empty])⟩

theorem Referenced.servable (h : Referenced this.db) : Servable this := by
  intro config period update hupdate
  obtain ⟨witness, hwitness⟩ := Option.isSome_iff_exists.mp (h.witness period update hupdate)
  obtain ⟨committee, hcommittee⟩ := Option.isSome_iff_exists.mp (h.committee _ _ hwitness)
  simp [LightClientServer.getCommitteeUpdates, hupdate, hwitness, hcommittee]

/-! ## Steps that keep the updates servable -/

/-- The next sync committee of the post state is stored already, or with this block. -/
def BringsCommittee (this : LightClientServer) (block : LightClient.BeaconBlock)
    (postState : LightClient.BeaconState) (parentBlock : ParentBlock) : Prop :=
  this.storedCurrentSyncCommittee = false ∨ this.isNewDependantRoot block parentBlock = true ∨
    this.db.syncCommittee.has (getSyncCommitteesWitness postState).nextSyncCommitteeRoot = true

/-- The block whose witness an update on the data refers to: the finalized one if its header is at
hand, else the attested one. -/
def referredRoot (this : LightClientServer) (data : SyncAttestedData) : Root :=
  match data.finality with
  | some finality =>
    if (this.checkpointHeaders.get finality.finalizedCheckpoint.root).isSome ∨
        (this.db.checkpointHeader finality.finalizedCheckpoint.root).isSome then
      finality.finalizedCheckpoint.root
    else data.blockRoot
  | none => data.blockRoot

/-- If the sync aggregate of the block makes the best update, the witness that this update refers
to has not been pruned. -/
def RefersToStored (this : LightClientServer) (block : LightClient.BeaconBlock) : Prop :=
  ∀ data, this.prevHeadData.get block.parentRoot = some data →
    this.keepsBestPartialUpdate block.syncAggregate data = false →
      this.db.syncCommitteeWitness.has (referredRoot this data) = true

/-- No pruned root is one that a stored update refers to. -/
def SparesUpdates (this : LightClientServer) (forkChoice : ForkChoice) (root : RootHex) : Prop :=
  ∀ canonical nonCanonical, getAllAncestorBlocks forkChoice root = .ok canonical →
    getAllNonAncestorBlocks forkChoice root = .ok nonCanonical →
      ∀ period update, this.db.bestPartialLightClientUpdate period = some update →
        update.syncCommitteeWitnessBlockRoot ∉ nonCheckpointBlockRoots canonical nonCanonical

instance : Decidable (BringsCommittee this block postState parentBlock) :=
  inferInstanceAs (Decidable (_ ∨ _ ∨ _))

instance : Decidable (RefersToStored this block) :=
  inferInstanceAs (Decidable (∀ data ∈ this.prevHeadData.get block.parentRoot, _ → _))

def KeepsServable (this : LightClientServer) : ServerEvent → Prop
  | .importBlock block postState parentBlock =>
    RefersToStored this block ∧ BringsCommittee this block postState parentBlock
  | .archive _ forkChoice finalizedCheckpoint =>
    SparesUpdates this forkChoice finalizedCheckpoint.rootHex

/-! ## Archiving -/

theorem archiveBlocks_ok {db db' : BlockDb} {forkChoice : ForkChoice}
    {this' : LightClientServer} {finalizedCheckpoint : CheckpointWithHex}
    (h : archiveBlocks db forkChoice this finalizedCheckpoint = .ok (db', this')) :
    ∃ canonical nonCanonical,
      getAllAncestorBlocks forkChoice finalizedCheckpoint.rootHex = .ok canonical ∧
      getAllNonAncestorBlocks forkChoice finalizedCheckpoint.rootHex = .ok nonCanonical ∧
      this' = this.pruneNonCheckpointData (nonCheckpointBlockRoots canonical nonCanonical) := by
  unfold archiveBlocks at h
  cases hc : getAllAncestorBlocks forkChoice finalizedCheckpoint.rootHex with
  | error e =>
    rw [hc] at h
    cases h
  | ok canonical =>
    cases hn : getAllNonAncestorBlocks forkChoice finalizedCheckpoint.rootHex with
    | error e =>
      rw [hc, hn] at h
      cases h
    | ok nonCanonical =>
      rw [hc, hn] at h
      cases hm : migrateBlocksFromHotToColdDb db (canonical.map blockRootSlot) with
      | error e =>
        have h' : (migrateBlocksFromHotToColdDb db (canonical.map blockRootSlot) >>= _) = _ := h
        rw [hm] at h'
        cases h'
      | ok migrated =>
        have h' : (migrateBlocksFromHotToColdDb db (canonical.map blockRootSlot) >>= _) = _ := h
        rw [hm] at h'
        refine ⟨canonical, nonCanonical, rfl, rfl, ?_⟩
        exact (Prod.mk.inj (Except.ok.inj h')).2.symm

theorem Referenced.prune (h : Referenced this.db) {roots : List Root}
    (hspared : ∀ period update, this.db.bestPartialLightClientUpdate period = some update →
      update.syncCommitteeWitnessBlockRoot ∉ roots) :
    Referenced (this.pruneNonCheckpointData roots).db := by
  constructor
  · intro period update hupdate
    show (this.db.syncCommitteeWitness.batchDelete roots).has _ = true
    rw [Repository.has, Repository.batchDelete_of_notMem (hspared period update hupdate)]
    exact h.witness period update hupdate
  · intro root witness hwitness
    exact h.committee root witness (Repository.batchDelete_eq_some hwitness).2

/-! ## Imports -/

/-- The servers agree but for the best updates, the cached headers and the latest header. -/
def SameButBest (this this' : LightClientServer) : Prop :=
  ∃ best headers latest, this' = { this with
    db := { this.db with bestPartialLightClientUpdate := best }
    checkpointHeaders := headers
    latestHeadUpdate := latest }

theorem SameButBest.trans {this₁ this₂ this₃ : LightClientServer} (h : SameButBest this₁ this₂)
    (h' : SameButBest this₂ this₃) : SameButBest this₁ this₃ := by
  obtain ⟨_, _, _, rfl⟩ := h
  obtain ⟨best, headers, latest, rfl⟩ := h'
  exact ⟨best, headers, latest, rfl⟩

theorem getFinalizedHeader_eq (this : LightClientServer) (root : Root) :
    (∃ headers, (this.getFinalizedHeader root).2 = { this with checkpointHeaders := headers }) ∧
      ((this.getFinalizedHeader root).1.isSome ↔
        (this.checkpointHeaders.get root).isSome ∨ (this.db.checkpointHeader root).isSome) := by
  unfold LightClientServer.getFinalizedHeader
  cases this.checkpointHeaders.get root with
  | some header => exact ⟨⟨_, rfl⟩, by simp⟩
  | none =>
    cases this.db.checkpointHeader root with
    | none => exact ⟨⟨_, rfl⟩, by simp⟩
    | some header => exact ⟨⟨_, rfl⟩, by simp⟩

theorem newPartialUpdate_eq (this : LightClientServer) (syncAggregate : SyncAggregate)
    (data : SyncAttestedData) :
    (∃ headers, (this.newPartialUpdate syncAggregate data).2 =
        { this with checkpointHeaders := headers }) ∧
      (this.newPartialUpdate syncAggregate data).1.syncCommitteeWitnessBlockRoot =
        referredRoot this data := by
  unfold LightClientServer.newPartialUpdate referredRoot
  cases hf : data.finality with
  | none => exact ⟨⟨_, rfl⟩, rfl⟩
  | some finality =>
    obtain ⟨hserver, hsome⟩ := getFinalizedHeader_eq this finality.finalizedCheckpoint.root
    refine ⟨hserver, ?_⟩
    simp only [← hsome]
    cases (this.getFinalizedHeader finality.finalizedCheckpoint.root).1 with
    | none => rfl
    | some header => rfl

/-- The update that is stored, if one is, refers to the root that was looked at before. -/
theorem maybeStoreNewBestPartialUpdate_eq (this : LightClientServer)
    (syncAggregate : SyncAggregate) (data : SyncAttestedData) :
    SameButBest this (this.maybeStoreNewBestPartialUpdate syncAggregate data) ∧
      ∀ period update, (this.maybeStoreNewBestPartialUpdate syncAggregate data
          ).db.bestPartialLightClientUpdate period = some update →
        this.db.bestPartialLightClientUpdate period = some update ∨
          this.keepsBestPartialUpdate syncAggregate data = false ∧
            update.syncCommitteeWitnessBlockRoot = referredRoot this data := by
  unfold LightClientServer.maybeStoreNewBestPartialUpdate
  split_ifs with hkeeps
  · exact ⟨⟨_, _, _, rfl⟩, fun _ _ h => .inl h⟩
  · obtain ⟨⟨headers, hserver⟩, hroot⟩ := newPartialUpdate_eq this syncAggregate data
    generalize this.newPartialUpdate syncAggregate data = result at hserver hroot ⊢
    obtain ⟨new, server⟩ := result
    obtain rfl : server = { this with checkpointHeaders := headers } := hserver
    refine ⟨⟨_, headers, this.latestHeadUpdate, rfl⟩, fun period update hupdate => ?_⟩
    rcases Repository.put_eq_some hupdate with ⟨-, rfl⟩ | ⟨-, hold⟩
    · exact .inr ⟨Bool.eq_false_iff.mpr hkeeps, hroot⟩
    · exact .inl hold

theorem updateLatestHeadUpdate_eq (this : LightClientServer)
    (headerUpdate : LightclientHeaderUpdate) :
    ∃ latest, this.updateLatestHeadUpdate headerUpdate =
      { this with latestHeadUpdate := latest } := by
  unfold LightClientServer.updateLatestHeadUpdate
  cases this.latestHeadUpdate with
  | none => exact ⟨_, rfl⟩
  | some latest =>
    simp only
    split_ifs
    · exact ⟨_, rfl⟩
    · exact ⟨_, rfl⟩

theorem onSyncAggregate_eq {this' : LightClientServer}
    (hok : this.onSyncAggregate block.syncAggregate block.parentRoot = .ok this') :
    SameButBest this this' ∧
      ∀ period update, this'.db.bestPartialLightClientUpdate period = some update →
        this.db.bestPartialLightClientUpdate period = some update ∨
          ∃ data, this.prevHeadData.get block.parentRoot = some data ∧
            this.keepsBestPartialUpdate block.syncAggregate data = false ∧
              update.syncCommitteeWitnessBlockRoot = referredRoot this data := by
  unfold LightClientServer.onSyncAggregate at hok
  cases hdata : this.prevHeadData.get block.parentRoot with
  | none =>
    simp only [hdata] at hok
    split_ifs at hok
    cases hok
    exact ⟨⟨_, _, _, rfl⟩, fun _ _ h => .inl h⟩
  | some data =>
    simp only [hdata] at hok
    cases hok
    obtain ⟨latest, heq⟩ :=
      updateLatestHeadUpdate_eq this ⟨data.attestedHeader, block.syncAggregate⟩
    rw [heq]
    obtain ⟨hsame, hbest⟩ := maybeStoreNewBestPartialUpdate_eq
      { this with latestHeadUpdate := latest } block.syncAggregate data
    refine ⟨SameButBest.trans ⟨_, _, latest, rfl⟩ hsame, fun period update hupdate => ?_⟩
    -- neither the stored updates nor the headers depend on the latest header
    rcases hbest period update hupdate with hold | ⟨hkeeps, hroot⟩
    · exact .inl hold
    · exact .inr ⟨data, rfl, hkeeps, hroot⟩

theorem Referenced.onSyncAggregate {this' : LightClientServer} (h : Referenced this.db)
    (hrefers : RefersToStored this block)
    (hok : this.onSyncAggregate block.syncAggregate block.parentRoot = .ok this') :
    Referenced this'.db := by
  obtain ⟨⟨_, _, _, rfl⟩, hbest⟩ := onSyncAggregate_eq hok
  refine ⟨fun period update hupdate => ?_, h.committee⟩
  rcases hbest period update hupdate with hold | ⟨data, hdata, hkeeps, hroot⟩
  · exact h.witness period update hold
  · rw [hroot]
    exact hrefers data hdata hkeeps

/-! ## Committees -/

/-- The committees that are stored stay. -/
structure Extends (this this' : LightClientServer) : Prop where
  best : this'.db.bestPartialLightClientUpdate = this.db.bestPartialLightClientUpdate
  witness : this'.db.syncCommitteeWitness = this.db.syncCommitteeWitness
  committee : ∀ root, this.db.syncCommittee.has root = true → this'.db.syncCommittee.has root = true

theorem Extends.trans {this₁ this₂ this₃ : LightClientServer} (h : Extends this₁ this₂)
    (h' : Extends this₂ this₃) : Extends this₁ this₃ :=
  ⟨h'.best.trans h.best, h'.witness.trans h.witness,
    fun root hroot => h'.committee root (h.committee root hroot)⟩

theorem extends_storeSyncCommittee (this : LightClientServer) (committee : StateTransition.SyncCommittee)
    (root : Root) : Extends this (this.storeSyncCommittee committee root) ∧
      (this.storeSyncCommittee committee root).db.syncCommittee.has root = true := by
  unfold LightClientServer.storeSyncCommittee
  split_ifs with hhas
  · exact ⟨⟨rfl, rfl, fun _ h => h⟩, hhas⟩
  · refine ⟨⟨rfl, rfl, fun _ h => Repository.has_put_of_has h⟩, ?_⟩
    show (this.db.syncCommittee.put root committee).has root = true
    rw [Repository.has, Repository.put_self]
    rfl

theorem extends_storeCurrentSyncCommittee (this : LightClientServer)
    (postState : LightClient.BeaconState) :
    Extends this (this.storeCurrentSyncCommittee postState) ∧
      (this.storedCurrentSyncCommittee = false →
        (this.storeCurrentSyncCommittee postState).db.syncCommittee.has
          (getSyncCommitteesWitness postState).nextSyncCommitteeRoot = true) := by
  unfold LightClientServer.storeCurrentSyncCommittee
  split_ifs with hstored
  · exact ⟨⟨rfl, rfl, fun _ h => h⟩, fun h => absurd hstored (by simp [h])⟩
  · obtain ⟨hcurrent, -⟩ := extends_storeSyncCommittee this postState.currentSyncCommittee
      (getSyncCommitteesWitness postState).currentSyncCommitteeRoot
    obtain ⟨hnext, hhas⟩ := extends_storeSyncCommittee
      (this.storeSyncCommittee postState.currentSyncCommittee
        (getSyncCommitteesWitness postState).currentSyncCommitteeRoot)
      postState.nextSyncCommittee (getSyncCommitteesWitness postState).nextSyncCommitteeRoot
    have hall := hcurrent.trans hnext
    exact ⟨⟨hall.best, hall.witness, hall.committee⟩, fun _ => hhas⟩

theorem extends_storeNextSyncCommittee (this : LightClientServer) (block : LightClient.BeaconBlock)
    (postState : LightClient.BeaconState) (parentBlock : ParentBlock) :
    Extends this (this.storeNextSyncCommittee block postState parentBlock) ∧
      (this.isNewDependantRoot block parentBlock = true →
        (this.storeNextSyncCommittee block postState parentBlock).db.syncCommittee.has
          (getSyncCommitteesWitness postState).nextSyncCommitteeRoot = true) := by
  unfold LightClientServer.storeNextSyncCommittee
  split_ifs with hnew
  · obtain ⟨hnext, hhas⟩ := extends_storeSyncCommittee _ postState.nextSyncCommittee
      (getSyncCommitteesWitness postState).nextSyncCommitteeRoot
    exact ⟨⟨hnext.best, hnext.witness, hnext.committee⟩, fun _ => hhas⟩
  · exact ⟨⟨rfl, rfl, fun _ h => h⟩, fun h => absurd h hnew⟩

theorem knownSyncCommittee_storeSyncCommittee (this : LightClientServer)
    (committee : StateTransition.SyncCommittee) (root : Root) :
    (this.storeSyncCommittee committee root).knownSyncCommittee = this.knownSyncCommittee := by
  unfold LightClientServer.storeSyncCommittee
  split_ifs <;> rfl

theorem isNewDependantRoot_storeCurrentSyncCommittee :
    (this.storeCurrentSyncCommittee postState).isNewDependantRoot block parentBlock =
      this.isNewDependantRoot block parentBlock := by
  have hknown : (this.storeCurrentSyncCommittee postState).knownSyncCommittee =
      this.knownSyncCommittee := by
    unfold LightClientServer.storeCurrentSyncCommittee
    split_ifs
    · rfl
    · exact (knownSyncCommittee_storeSyncCommittee ..).trans
        (knownSyncCommittee_storeSyncCommittee ..)
  unfold LightClientServer.isNewDependantRoot
  rw [hknown]

theorem Referenced.persistPostBlockImportData (h : Referenced this.db)
    (hbrings : BringsCommittee this block postState parentBlock) :
    Referenced (this.persistPostBlockImportData block postState parentBlock).db := by
  obtain ⟨hcurrent, hfirst⟩ := extends_storeCurrentSyncCommittee this postState
  obtain ⟨hnext, hnew⟩ := extends_storeNextSyncCommittee
    (this.storeCurrentSyncCommittee postState) block postState parentBlock
  rw [isNewDependantRoot_storeCurrentSyncCommittee] at hnew
  have hall := hcurrent.trans hnext
  have hhas : ((this.storeCurrentSyncCommittee postState).storeNextSyncCommittee block postState
      parentBlock).db.syncCommittee.has
        (getSyncCommitteesWitness postState).nextSyncCommitteeRoot = true := by
    rcases hbrings with hstored | hroot | hold
    · exact hnext.committee _ (hfirst hstored)
    · exact hnew hroot
    · exact hall.committee _ hold
  constructor
  · intro period update hupdate
    have hold : this.db.bestPartialLightClientUpdate period = some update := hall.best ▸ hupdate
    apply Repository.has_put_of_has
    rw [hall.witness]
    exact h.witness period update hold
  · intro root witness hwitness
    rcases Repository.put_eq_some hwitness with ⟨-, rfl⟩ | ⟨-, hold⟩
    · exact hhas
    · exact hall.committee _ (h.committee root witness (hall.witness ▸ hold))

/-! ## Along a run -/

theorem Referenced.apply (h : Referenced this.db) {event : ServerEvent}
    (hkeeps : KeepsServable this event) : Referenced (event.apply this).db := by
  cases event with
  | importBlock block postState parentBlock =>
    obtain ⟨hrefers, hbrings⟩ := hkeeps
    show Referenced (this.onImportBlock block postState parentBlock).db
    unfold LightClientServer.onImportBlock
    cases hok : this.onSyncAggregate block.syncAggregate block.parentRoot with
    | ok this' =>
      have hreferenced := h.onSyncAggregate hrefers hok
      obtain ⟨⟨_, _, _, rfl⟩, -⟩ := onSyncAggregate_eq hok
      exact hreferenced.persistPostBlockImportData hbrings
    | error e => exact h.persistPostBlockImportData hbrings
  | archive db forkChoice finalizedCheckpoint =>
    cases hok : archiveBlocks db forkChoice this finalizedCheckpoint with
    | error e =>
      simp only [ServerEvent.apply, hok]
      exact h
    | ok result =>
      obtain ⟨canonical, nonCanonical, hcanonical, hnonCanonical, heq⟩ := archiveBlocks_ok hok
      simp only [ServerEvent.apply, hok, heq]
      exact h.prune (hkeeps canonical nonCanonical hcanonical hnonCanonical)

/-- The server after some events. -/
def afterEvents (this : LightClientServer) : List ServerEvent → LightClientServer
  | [] => this
  | event :: events => afterEvents (event.apply this) events

/-- Each event meets its condition in the state that the events before it have left. -/
def AllKeepServable (this : LightClientServer) : List ServerEvent → Prop
  | [] => True
  | event :: events => KeepsServable this event ∧ AllKeepServable (event.apply this) events

theorem Referenced.afterEvents {events : List ServerEvent} (h : Referenced this.db)
    (hkeep : AllKeepServable this events) : Referenced (afterEvents this events).db := by
  induction events generalizing this with
  | nil => exact h
  | cons event events ih => exact ih (h.apply hkeep.1) hkeep.2

/-- From a database whose updates are servable, such a run keeps them so. -/
theorem servable_afterEvents {db : LightClientDb} (hdb : Referenced db) {events : List ServerEvent}
    (hkeep : AllKeepServable (.new db) events) : Servable (afterEvents (.new db) events) :=
  (Referenced.afterEvents hdb hkeep).servable

end Main

/-! ## A witness that is pruned under its update -/

attribute [local instance] minimal

/-- The block `3` at slot 8 is finalized for epoch 1; no checkpoint is at slot 5 or 6. -/
def finalizedCalls : List Call :=
  [.updateTime 33,
    .onBlock (plainBlock 5 1 0xaa) (plainState 5 ⟨0, 0xaa⟩ ⟨0, 0xaa⟩) (some (lateData none)),
    .onBlock (plainBlock 6 2 1) (plainState 6 ⟨0, 0xaa⟩ ⟨0, 0xaa⟩) (some (lateData none)),
    .onBlock (plainBlock 8 3 2) (plainState 8 ⟨0, 0xaa⟩ ⟨0, 0xaa⟩) (some (lateData none)),
    .onBlock (plainBlock 25 4 3) (plainState 25 ⟨2, 3⟩ ⟨1, 3⟩) (some (lateData (some [1])))]

def finalizedChoice : ForkChoice := (genesisChoice false).afterCalls finalizedCalls

/-- The blocks of the hot database, of one content. -/
def hotDb : BlockDb where
  block := ((Repository.empty.put 1 (List.replicate 148 0)).put 2 (List.replicate 148 0)).put 3
    (List.replicate 148 0)
  blockArchive := ⟨∅, .empty, .empty⟩

def archiveFinalized : ServerEvent := .archive hotDb finalizedChoice ⟨1, 3⟩

/-- The import of a block whose sync aggregate has `bits` members. -/
def importEvent (slot : Nat) (root : Root) (parentBlock : ParentBlock) (bits : Nat)
    (finalizedCheckpoint : Checkpoint) : ServerEvent :=
  .importBlock
    { slot := slot
      proposerIndex := 0
      parentRoot := parentBlock.blockRoot
      stateRoot := 0
      syncAggregate := ⟨Vector.ofFn fun i => i.val < bits, 0⟩
      bodyRoot := 0
      hashTreeRoot := root }
    { currentSyncCommittee := ⟨[], 0⟩
      nextSyncCommittee := ⟨[], 0⟩
      finalizedCheckpoint := finalizedCheckpoint
      tree := fun gindex => BitVec.ofNat 256 gindex }
    parentBlock

/-- The best update attests the block `2`, which is no checkpoint. -/
def prunedEvents : List ServerEvent :=
  [importEvent 5 1 ⟨0xaa, 0⟩ 20 ⟨0, 0⟩, importEvent 6 2 ⟨1, 5⟩ 20 ⟨0, 0⟩,
    importEvent 8 3 ⟨2, 6⟩ 30 ⟨0, 0⟩, importEvent 25 4 ⟨3, 8⟩ 20 ⟨1, 3⟩, archiveFinalized]

theorem not_servable_prunedEvents : ¬ Servable (afterEvents (.new .empty) prunedEvents) := by
  intro h
  have hstored : ((afterEvents (.new .empty) prunedEvents).db.bestPartialLightClientUpdate
      0).isSome = true := by decide +kernel
  have hthrows : ((afterEvents (.new .empty) prunedEvents).getCommitteeUpdates chainConfigMinimal
      0).isOk = false := by decide +kernel
  obtain ⟨update, hupdate⟩ := Option.isSome_iff_exists.mp hstored
  obtain ⟨response, hresponse⟩ := h chainConfigMinimal 0 update hupdate
  rw [hresponse] at hthrows
  cases hthrows

/-- The blocks are archived before an update is stored. -/
def sparedEvents : List ServerEvent :=
  [importEvent 5 1 ⟨0xaa, 0⟩ 20 ⟨0, 0⟩, archiveFinalized, importEvent 8 3 ⟨1, 5⟩ 30 ⟨0, 0⟩]

theorem sparedEvents_keep : AllKeepServable (.new .empty) sparedEvents := by
  refine ⟨?_, ?_, ?_, trivial⟩
  · exact ⟨by decide +kernel, by decide +kernel⟩
  · intro canonical nonCanonical _ _ period update hupdate
    have hempty : ((importEvent 5 1 ⟨0xaa, 0⟩ 20 ⟨0, 0⟩).apply
        (.new .empty)).db.bestPartialLightClientUpdate = .empty := rfl
    rw [hempty] at hupdate
    cases hupdate
  · exact ⟨by decide +kernel, by decide +kernel⟩

theorem servable_sparedEvents : Servable (afterEvents (.new .empty) sparedEvents) :=
  servable_afterEvents referenced_empty sparedEvents_keep

end Lodestar.Chain

import Lodestar.LightClient.Validation

/-!
# The light client

`Lightclient` of `light-client/src/index.ts`: what it does with the updates and
the header updates that it is sent, one at a time.
-/

namespace Lodestar.LightClient

open Lodestar.Base Lodestar.StateTransition

/-- Only the current and next sync committee. -/
def MAX_STORED_SYNC_COMMITTEES : Nat := 2
/-- Current, previous and next participation. -/
def MAX_STORED_PARTICIPATION : Nat := 3
def SAFETY_THRESHOLD_FACTOR : Nat := 2

section

variable [LightclientCrypto]

/-- `LightclientUpdateStats & SyncCommitteeFast`. -/
structure StoredSyncCommittee extends LightclientUpdateStats, SyncCommitteeFast

structure LightclientHead where
  participation : Nat
  header : BeaconBlockHeader
  blockRoot : RootHex

structure Lightclient where
  syncCommitteeByPeriod : OrderedMap Nat StoredSyncCommittee
  maxParticipationByPeriod : OrderedMap Nat Nat
  head : LightclientHead

end

/-- `snapshot` of the arguments of the constructor. -/
structure LightclientSnapshot where
  header : BeaconBlockHeader
  currentSyncCommittee : SyncCommittee

variable [Preset] [LightclientCrypto]

namespace Lightclient

def new (snapshot : LightclientSnapshot) : Except LightclientError Lightclient := do
  let periodCurr := computeSyncPeriodAtSlot snapshot.header.slot
  let committee ← deserializeSyncCommittee snapshot.currentSyncCommittee
  return {
    syncCommitteeByPeriod := OrderedMap.empty.set periodCurr {
      isFinalized := false
      participation := 0
      slot := periodCurr * EPOCHS_PER_SYNC_COMMITTEE_PERIOD * SLOTS_PER_EPOCH
      toSyncCommitteeFast := committee }
    maxParticipationByPeriod := .empty
    head := {
      participation := 0
      header := snapshot.header
      blockRoot := headerRoot snapshot.header } }

/-! ## Header updates -/

/-- The greatest participation seen in the period and the one before. -/
def maxParticipation (this : Lightclient) (period : Nat) : Nat :=
  let currMaxParticipation := (this.maxParticipationByPeriod.get period).getD 0
  let prevMaxParticipation :=
    if period = 0 then 0 else (this.maxParticipationByPeriod.get (period - 1)).getD 0
  max currMaxParticipation prevMaxParticipation

/-- The new maximum of a period, if it is one. -/
def registerParticipation (this : Lightclient) (period participation : Nat) : Lightclient :=
  if participation > this.maxParticipation period then
    let registered := this.maxParticipationByPeriod.set period participation
    { this with maxParticipationByPeriod := registered.pruneToMax MAX_STORED_PARTICIPATION }
  else this

/-- `slotWithFutureTolerance` is read from the clock. -/
def processHeaderUpdate (this : Lightclient) (slotWithFutureTolerance : Int)
    (headerUpdate : LightclientHeaderUpdate) : Except LightclientError Lightclient := do
  let header := headerUpdate.attestedHeader
  if (header.slot : Int) > slotWithFutureTolerance then
    throw (.tooFarInTheFuture header.slot)
  let period := computeSyncPeriodAtSlot header.slot
  match this.syncCommitteeByPeriod.get period with
  | none => throw (.noSyncCommittee period)
  | some syncCommittee =>
    let headerBlockRoot := headerRoot header
    assertValidSignedHeader syncCommittee.toSyncCommitteeFast headerUpdate.syncAggregate
      headerBlockRoot header.slot
    let minSafeParticipation := this.maxParticipation period / SAFETY_THRESHOLD_FACTOR
    let participation := sumBits headerUpdate.syncAggregate.syncCommitteeBits
    if participation < minSafeParticipation then
      throw (.lessThanSafeMinimum participation minSafeParticipation)
    let this := this.registerParticipation period participation
    -- advance the head, or replace one at the same slot
    if header.slot > this.head.header.slot ∨
        header.slot = this.head.header.slot ∧ participation > this.head.participation then
      return { this with head := { participation, header, blockRoot := headerBlockRoot } }
    else return this

/-! ## Updates -/

/-- What is kept of an update beside its committee. -/
def statsOfUpdate (update : LightClientUpdate) : LightclientUpdateStats where
  isFinalized := !isEmptyHeader update.finalizedHeader
  participation := sumBits update.syncAggregate.syncCommitteeBits
  slot := (activeHeader update).slot

/-- The committee of a valid update is stored under the next period, if there is no better one. -/
def storeNextSyncCommittee (this : Lightclient) (updatePeriod : Nat) (update : LightClientUpdate) :
    Except LightclientError Lightclient :=
  let nextPeriod := updatePeriod + 1
  let existingNextSyncCommittee := this.syncCommitteeByPeriod.get nextPeriod
  let newNextSyncCommitteeStats := statsOfUpdate update
  if existingNextSyncCommittee.all
      (·.toLightclientUpdateStats.isBetterUpdate newNextSyncCommitteeStats) then do
    let committee ← deserializeSyncCommittee update.nextSyncCommittee
    let stored := this.syncCommitteeByPeriod.set nextPeriod {
      toLightclientUpdateStats := newNextSyncCommitteeStats
      toSyncCommitteeFast := committee }
    return { this with syncCommitteeByPeriod := stored.pruneToMax MAX_STORED_SYNC_COMMITTEES }
  else .ok this

/-- `Math.min(-Infinity, ...this.syncCommitteeByPeriod.keys())`. -/
def minPeriod (this : Lightclient) : WithBot Nat :=
  (this.syncCommitteeByPeriod.keys.map ((↑) : Nat → WithBot Nat)).foldl min ⊥

def processSyncCommitteeUpdate (this : Lightclient) (slotWithFutureTolerance : Int)
    (update : LightClientUpdate) : Except LightclientError Lightclient := do
  let updateSlot := (activeHeader update).slot
  if (updateSlot : Int) > slotWithFutureTolerance then
    throw (.tooFarInTheFuture updateSlot)
  let updatePeriod := computeSyncPeriodAtSlot updateSlot
  if (updatePeriod : WithBot Nat) < this.minPeriod then
    throw (.rollback this.minPeriod)
  match this.syncCommitteeByPeriod.get updatePeriod with
  | none => throw (.noSyncCommittee updatePeriod)
  | some syncCommittee =>
    assertValidLightClientUpdate syncCommittee.toSyncCommitteeFast update
    this.storeNextSyncCommittee updatePeriod update

end Lightclient

/-! ## Runs -/

/-- What the client is fed, and what its clock says then. -/
inductive LightclientEvent where
  | headerUpdate (headerUpdate : LightclientHeaderUpdate) (slotWithFutureTolerance : Int)
  | syncCommitteeUpdate (update : LightClientUpdate) (slotWithFutureTolerance : Int)

namespace Lightclient

/-- An error is logged, and leaves the client as it is. -/
def step (this : Lightclient) (event : LightclientEvent) : Lightclient :=
  match event with
  | .headerUpdate headerUpdate slotWithFutureTolerance =>
    okOr this (this.processHeaderUpdate slotWithFutureTolerance headerUpdate)
  | .syncCommitteeUpdate update slotWithFutureTolerance =>
    okOr this (this.processSyncCommitteeUpdate slotWithFutureTolerance update)

def run (this : Lightclient) (events : List LightclientEvent) : Lightclient :=
  events.foldl step this

end Lightclient

end Lodestar.LightClient

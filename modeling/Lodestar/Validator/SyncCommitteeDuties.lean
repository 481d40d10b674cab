import Lodestar.Base.Async
import Lodestar.Base.OrderedMap
import Lodestar.StateTransition.Util

/-!
# Sync committee duties of the validator client

`SyncCommitteeDutiesService` of `validator/src/services/syncCommitteeDuties.ts`
and the `IndicesService` it shares with the attester duties. The beacon node
answers as it likes.
-/

namespace Lodestar.Validator.SyncCommittee

open Lodestar.Base Lodestar.StateTransition

/-! ## Types -/

structure SyncDuty where
  pubkey : BLSPubkey
  validatorIndex : Nat
  validatorSyncCommitteeIndices : List Nat
  deriving DecidableEq

/-- What `getSyncCommitteeDuties` answers. -/
structure SyncDuties where
  dependentRoot : RootHex
  data : List SyncDuty

structure DutyAtPeriod where
  dependentRoot : RootHex
  duty : SyncDuty

structure SyncCommitteeSubscription where
  validatorIndex : Nat
  syncCommitteeIndices : List Nat
  untilEpoch : Nat

/-- What `getStateValidators` answers for a validator. -/
structure ValidatorState where
  index : Nat
  pubkey : BLSPubkey
  deriving DecidableEq

def HISTORICAL_DUTIES_PERIODS : Nat := 2
def ALTAIR_FORK_LOOKAHEAD_EPOCHS : Nat := 0
def SUBSCRIPTIONS_LOOKAHEAD_EPOCHS : Nat := 2
def PUBKEYS_PER_REQUEST : Nat := 10

/-- The maps of the two services. -/
structure SyncServices where
  dutiesByIndexByPeriod : OrderedMap Nat (OrderedMap Nat DutyAtPeriod)
  index2pubkey : OrderedMap Nat BLSPubkey
  pubkey2index : OrderedMap BLSPubkey Nat
  /-- Whether `pollValidatorIndicesPromise` is there. -/
  pollingIndices : Bool

/-! ## What is awaited -/

inductive SyncDutyQuery where
  | getSyncCommitteeDuties (epoch : Nat) (indexArr : List Nat)
  | prepareSyncCommitteeSubnets (subscriptions : List SyncCommitteeSubscription)
  | getStateValidators (indices : List BLSPubkey)
  /-- The promise of a poll that another caller started. -/
  | pollValidatorIndicesPromise

def SyncDutyQuery.Result : SyncDutyQuery → Type
  | .getSyncCommitteeDuties .. => SyncDuties
  | .prepareSyncCommitteeSubnets _ => Unit
  | .getStateValidators _ => List ValidatorState
  | .pollValidatorIndicesPromise => List Nat

/-- A promise may be rejected. -/
abbrev SyncDutyAnswer (q : SyncDutyQuery) : Type := Except String q.Result

abbrev SyncTask (α : Type) : Type := Async SyncServices SyncDutyQuery SyncDutyAnswer String α

def request (q : SyncDutyQuery) : SyncTask q.Result := do
  let answer ← Async.await q
  Async.lift answer

/-- A change of the maps, between awaits. -/
def change {α : Type} (f : SyncServices → α × SyncServices) : SyncTask α :=
  Async.sync fun this => .ok (f this)

def extendError {α : Type} (prependMessage : String) (p : SyncTask α) : SyncTask α :=
  tryCatch p fun e => throw s!"{prependMessage} - {e}"

/-- `.catch((e) => logger.error(..))`. -/
def logged (p : SyncTask Unit) : SyncTask Unit := tryCatch p fun _ => pure ()

namespace SyncServices

def new : SyncServices := ⟨.empty, .empty, .empty, false⟩

variable (this : SyncServices)

/-! ## Indices -/

def getAllLocalIndices : List Nat := this.index2pubkey.keys

def hasValidatorIndex (index : Nat) : Bool := this.index2pubkey.has index

/-- One turn of the loop of `fetchValidatorIndices`. -/
def learnIndex (learned : List Nat × SyncServices) (state : ValidatorState) :
    List Nat × SyncServices :=
  let (newIndices, this) := learned
  if this.pubkey2index.has state.pubkey then (newIndices, this)
  else
    (newIndices ++ [state.index], { this with
      pubkey2index := this.pubkey2index.set state.pubkey state.index
      index2pubkey := this.index2pubkey.set state.index state.pubkey })

/-! ## Duties -/

/-- The loop over the duties of an answer. -/
def localDuties (syncDuties : SyncDuties) : OrderedMap Nat DutyAtPeriod :=
  syncDuties.data.foldl (fun dutiesByIndex duty =>
    if this.hasValidatorIndex duty.validatorIndex then
      dutiesByIndex.set duty.validatorIndex ⟨syncDuties.dependentRoot, duty⟩
    else dutiesByIndex) .empty

variable [Preset]

/-- The end of `pollSyncCommitteesForEpoch`. -/
def storeDuties (epoch : Nat) (syncDuties : SyncDuties) : SyncServices :=
  { this with
    dutiesByIndexByPeriod :=
      this.dutiesByIndexByPeriod.set (computeSyncPeriodAtEpoch epoch) (this.localDuties syncDuties) }

/-- The subscriptions for the duties of a period. -/
def subscriptions (currentEpoch : Nat) (indexArr : List Nat) (period : Nat) :
    List SyncCommitteeSubscription :=
  match this.dutiesByIndexByPeriod.get period with
  | none => []
  | some dutiesByIndex =>
    let fromEpoch := period * EPOCHS_PER_SYNC_COMMITTEE_PERIOD
    let untilEpoch := (period + 1) * EPOCHS_PER_SYNC_COMMITTEE_PERIOD
    (dutiesByIndex.entries.filter fun entry => indexArr.contains entry.1 &&
        decide (fromEpoch ≤ currentEpoch + SUBSCRIPTIONS_LOOKAHEAD_EPOCHS)).map fun entry =>
      { validatorIndex := entry.1
        syncCommitteeIndices := entry.2.duty.validatorSyncCommitteeIndices
        untilEpoch }

def pruneOldDuties (currentEpoch : Nat) : SyncServices :=
  { this with
    dutiesByIndexByPeriod :=
      (this.dutiesByIndexByPeriod.keys.filter fun period =>
          period + HISTORICAL_DUTIES_PERIODS < computeSyncPeriodAtEpoch currentEpoch).foldl
        (fun map period => map.delete period) this.dutiesByIndexByPeriod }

end SyncServices

/-! ## Polls of the indices -/

def fetchValidatorIndices (pubkeysHex : List BLSPubkey) : SyncTask (List Nat) := do
  let validatorsState ← request (.getStateValidators pubkeysHex)
  change fun this => (validatorsState : List ValidatorState).foldl SyncServices.learnIndex ([], this)

/-- The loop over the batches. -/
def fetchBatches : List (List BLSPubkey) → List Nat → SyncTask (List Nat)
  | [], newIndices => return newIndices
  | batch :: batches, newIndices => do
    let validatorIndicesArr ← fetchValidatorIndices batch
    fetchBatches batches (newIndices ++ validatorIndicesArr)

/-- `votingPubkeys` are those of the `validatorStore`. -/
def pollValidatorIndicesInternal (votingPubkeys : List BLSPubkey) : SyncTask (List Nat) := do
  let pubkeysHex ← change fun this =>
    (votingPubkeys.filter fun pubkey => !this.pubkey2index.has pubkey, this)
  if pubkeysHex = [] then return []
  else fetchBatches (pubkeysHex.toChunks PUBKEYS_PER_REQUEST) []

/-- The promise is dropped when it is settled. -/
def endPoll : SyncTask Unit := change fun this => ((), { this with pollingIndices := false })

def pollValidatorIndices (votingPubkeys : List BLSPubkey) : SyncTask (List Nat) := do
  let polling ← change fun this => (this.pollingIndices, { this with pollingIndices := true })
  if polling then request .pollValidatorIndicesPromise
  else
    let newIndices ← tryCatch (pollValidatorIndicesInternal votingPubkeys) fun e => do
      endPoll
      throw e
    endPoll
    return newIndices

/-! ## Polls of the duties -/

variable [Preset]

def pollSyncCommitteesForEpoch (epoch : Nat) (indexArr : List Nat) : SyncTask Unit := do
  let syncDuties ← extendError "Failed to obtain SyncDuties"
    (request (.getSyncCommitteeDuties epoch indexArr))
  change fun this => ((), this.storeDuties epoch syncDuties)

def pollSyncCommittees (currentEpoch : Nat) (indexArr : List Nat) : SyncTask Unit := do
  if indexArr = [] then return ()
  else
    let nextPeriodEpoch := currentEpoch + EPOCHS_PER_SYNC_COMMITTEE_PERIOD
    logged (pollSyncCommitteesForEpoch currentEpoch indexArr)
    logged (pollSyncCommitteesForEpoch nextPeriodEpoch indexArr)
    let currentPeriod := computeSyncPeriodAtEpoch currentEpoch
    let syncCommitteeSubscriptions ← change fun this =>
      (this.subscriptions currentEpoch indexArr currentPeriod ++
        this.subscriptions currentEpoch indexArr (currentPeriod + 1), this)
    if syncCommitteeSubscriptions = [] then return ()
    else
      let _ ← extendError "Failed to subscribe to sync committee subnets"
        (request (.prepareSyncCommitteeSubnets syncCommitteeSubscriptions))

/-! ## Tasks -/

/-- The two polls of `runDutiesTasks` and its last step. -/
inductive SyncDutyTask where
  | pollAllLocalIndices (currentEpoch : Nat)
  | pollNewIndices (currentEpoch : Nat)
  | pruneOldDuties (currentEpoch : Nat)
  /-- The other service polls the indices. -/
  | pollIndicesOnly

def SyncDutyTask.run (votingPubkeys : List BLSPubkey) : SyncDutyTask → SyncTask Unit
  | .pollAllLocalIndices currentEpoch => do
    let indexArr ← change fun this => (this.getAllLocalIndices, this)
    pollSyncCommittees currentEpoch indexArr
  | .pollNewIndices currentEpoch => do
    let newIndices ← pollValidatorIndices votingPubkeys
    pollSyncCommittees currentEpoch newIndices
  | .pruneOldDuties currentEpoch => change fun this => ((), this.pruneOldDuties currentEpoch)
  | .pollIndicesOnly => do
    let _ ← pollValidatorIndices votingPubkeys

/-- The tasks that `runDutiesTasks` starts at once. -/
def runDutiesTasks (config : ChainConfig) (currentEpoch : Nat) : List SyncDutyTask :=
  if (currentEpoch : WithTop Nat) + ALTAIR_FORK_LOOKAHEAD_EPOCHS < config.ALTAIR_FORK_EPOCH then []
  else [.pollAllLocalIndices currentEpoch, .pollNewIndices currentEpoch]

end Lodestar.Validator.SyncCommittee

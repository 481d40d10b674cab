import Lodestar.Base.Except
import Lodestar.LightClient.Update
import Lodestar.StateTransition.Util

/-!
# Valid updates

`light-client/src/validation.ts` and the utilities it calls. Hashing and
signatures are parameters.
-/

namespace Lodestar.LightClient

open Lodestar.Base Lodestar.StateTransition

inductive LightclientError where
  /-- `header.slot ${slot} is too far in the future`, of an update or of a header. -/
  | tooFarInTheFuture (slot : Nat)
  /-- `update must not rollback existing committee at period ${minPeriod}`. -/
  | rollback (minPeriod : WithBot Nat)
  /-- `No SyncCommittee for period ${period}`. -/
  | noSyncCommittee (period : Nat)
  /-- `Wrong length finalityBranches`. -/
  | wrongLength
  /-- `Not zeroed finalityBranches`. -/
  | notZeroed
  /-- `Invalid finality header merkle branch`. -/
  | invalidFinalityBranch
  /-- `finalityHeader period ${updateFinalityPeriod} != header period ${updatePeriod}`. -/
  | finalityPeriod (updateFinalityPeriod updatePeriod : Nat)
  /-- `Invalid next sync committee merkle branch`. -/
  | invalidSyncCommitteeBranch
  /-- `hash` of a missing element of a branch. -/
  | noBranchElement (i : Nat)
  /-- `No pubkey ${i} in syncCommittee`. -/
  | noPubkey (i : Nat)
  /-- `Sync committee has not sufficient participants`. -/
  | notSufficientParticipants
  /-- `Invalid aggregate signature`. -/
  | invalidAggregateSignature
  /-- `syncAggregate has participation ${participation} less than safe minimum`. -/
  | lessThanSafeMinimum (participation minSafeParticipation : Nat)
  /-- An error of the signature library. -/
  | bls (message : String)
  deriving DecidableEq

/-- What the light client hashes and verifies signatures with. -/
class LightclientCrypto where
  PublicKey : Type
  /-- `PublicKey.fromBytes`, which throws when the bytes are no key. -/
  fromBytes : BLSPubkey → Except LightclientError PublicKey
  isValidBlsAggregate : List PublicKey → Root → BLSSignature → Except LightclientError Bool
  hash : Root → Root → Root
  /-- `BeaconBlockHeader.hashTreeRoot`. -/
  headerRoot : BeaconBlockHeader → Root
  /-- `SyncCommittee.hashTreeRoot`. -/
  committeeRoot : SyncCommittee → Root
  /-- `SigningData.hashTreeRoot` with the sync committee domain at a slot. -/
  signingRoot : (objectRoot : Root) → (slot : Nat) → Root

export LightclientCrypto (PublicKey fromBytes isValidBlsAggregate hash headerRoot committeeRoot
  signingRoot)

variable [Preset] [LightclientCrypto]

structure SyncCommitteeFast where
  pubkeys : List PublicKey
  aggregatePubkey : PublicKey

def deserializeSyncCommittee (syncCommittee : SyncCommittee) :
    Except LightclientError SyncCommitteeFast := do
  let pubkeys ← syncCommittee.pubkeys.mapM fromBytes
  let aggregatePubkey ← fromBytes syncCommittee.aggregatePubkey
  return { pubkeys, aggregatePubkey }

/-! ## Utilities -/

def isEmptyHeader (header : BeaconBlockHeader) : Bool := header = ⟨0, 0, 0, 0, 0⟩

/-- The header that the update is trying to convince us to accept. -/
def activeHeader (update : LightClientUpdate) : BeaconBlockHeader :=
  if !isEmptyHeader update.finalizedHeader then update.finalizedHeader else update.attestedHeader

def assertZeroHashes (rootArray : List Root) (expectedLength : Nat) :
    Except LightclientError Unit :=
  if rootArray.length ≠ expectedLength then .error .wrongLength
  else if rootArray.any (· ≠ 0) then .error .notZeroed
  else .ok ()

/-- The keys of the bits that are set, from index `i` on. -/
def participantPubkeys {α : Type} (pubkeys : List α) :
    (i : Nat) → List Bool → Except LightclientError (List α)
  | _, [] => .ok []
  | i, true :: bits =>
    match pubkeys[i]? with
    | none => .error (.noPubkey i)
    | some pubkey => return pubkey :: (← participantPubkeys pubkeys (i + 1) bits)
  | i, false :: bits => participantPubkeys pubkeys (i + 1) bits

def getParticipantPubkeys {α : Type} {n : Nat} (pubkeys : List α) (bits : Vector Bool n) :
    Except LightclientError (List α) :=
  participantPubkeys pubkeys 0 bits.toList

/-- A turn of the loop of `isValidMerkleBranch`. `hash` throws where the branch has no element. -/
def merkleBranchStep (proof : List Root) (index : Nat) (value : Root) (i : Nat) :
    Except LightclientError Root := do
  let sibling ← (proof[i]?).elim (throw (.noBranchElement i)) pure
  return if index / 2 ^ i % 2 ≠ 0 then hash sibling value else hash value sibling

def isValidMerkleBranch (leaf : Root) (proof : List Root) (depth index : Nat) (root : Root) :
    Except LightclientError Bool := do
  let value ← (List.range depth).foldlM (merkleBranchStep proof index) leaf
  return value = root

/-! ## Assertions -/

def assertValidFinalityProof (update : LightClientUpdate) : Except LightclientError Unit := do
  if !(← isValidMerkleBranch (headerRoot update.finalizedHeader) update.finalityBranch.toList
      FINALIZED_ROOT_DEPTH FINALIZED_ROOT_INDEX update.attestedHeader.stateRoot) then
    throw .invalidFinalityBranch
  let updatePeriod := computeSyncPeriodAtSlot update.attestedHeader.slot
  let updateFinalityPeriod := computeSyncPeriodAtSlot update.finalizedHeader.slot
  if updateFinalityPeriod ≠ updatePeriod then
    throw (.finalityPeriod updateFinalityPeriod updatePeriod)

def assertValidSyncCommitteeProof (update : LightClientUpdate) : Except LightclientError Unit := do
  if !(← isValidMerkleBranch (committeeRoot update.nextSyncCommittee)
      update.nextSyncCommitteeBranch.toList NEXT_SYNC_COMMITTEE_DEPTH NEXT_SYNC_COMMITTEE_INDEX
      (activeHeader update).stateRoot) then
    throw .invalidSyncCommitteeBranch

def assertValidSignedHeader (syncCommittee : SyncCommitteeFast) (syncAggregate : SyncAggregate)
    (signedHeaderRoot : Root) (signedHeaderSlot : Nat) : Except LightclientError Unit := do
  let participantPubkeys ←
    getParticipantPubkeys syncCommittee.pubkeys syncAggregate.syncCommitteeBits
  if participantPubkeys.length < MIN_SYNC_COMMITTEE_PARTICIPANTS then
    throw .notSufficientParticipants
  let signingRoot := signingRoot signedHeaderRoot signedHeaderSlot
  if !(← isValidBlsAggregate participantPubkeys signingRoot syncAggregate.syncCommitteeSignature)
    then throw .invalidAggregateSignature

def assertValidLightClientUpdate (syncCommittee : SyncCommitteeFast) (update : LightClientUpdate) :
    Except LightclientError Unit := do
  let isFinalized := !isEmptyHeader update.finalizedHeader
  if isFinalized then assertValidFinalityProof update
  else assertZeroHashes update.finalityBranch.toList FINALIZED_ROOT_DEPTH
  assertValidSyncCommitteeProof update
  let headerBlockRoot := headerRoot update.attestedHeader
  assertValidSignedHeader syncCommittee update.syncAggregate headerBlockRoot
    update.attestedHeader.slot

end Lodestar.LightClient

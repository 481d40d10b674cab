import Lodestar.Chain.GossipAttestation
import Lodestar.Chain.LocalClock
import Lodestar.Chain.SeenCaches
import Lodestar.StateTransition.State

/-!
# Sync committee messages from gossip

`chain/validation/syncCommittee.ts` and `syncCommitteeContributionAndProof.ts`.
All is checked before the one await, that of the signatures.
-/

namespace Lodestar.Chain

open Lodestar.Base Lodestar.StateTransition

/-! ## Objects -/

def SYNC_COMMITTEE_SUBNET_COUNT : Nat := 4

def TARGET_AGGREGATORS_PER_SYNC_SUBCOMMITTEE : Nat := 16

structure SyncCommitteeMessage where
  slot : Nat
  beaconBlockRoot : Root
  validatorIndex : Nat
  signature : BLSSignature

structure SyncCommitteeContribution where
  slot : Nat
  beaconBlockRoot : Root
  subcommitteeIndex : Nat
  aggregationBits : List Bool
  signature : BLSSignature

structure ContributionAndProof where
  aggregatorIndex : Nat
  contribution : SyncCommitteeContribution
  selectionProof : BLSSignature

structure SignedContributionAndProof where
  message : ContributionAndProof
  signature : BLSSignature

/-- A signature set, with the validators whose keys it is checked against. -/
inductive SyncSignatureSet where
  | syncCommittee (message : SyncCommitteeMessage)
  | selectionProof (contributionAndProof : ContributionAndProof)
  | contributionAndProof (signed : SignedContributionAndProof)
  | contribution (contribution : SyncCommitteeContribution) (validatorIndices : List (Option Nat))

/-! ## Errors -/

/-- `SyncCommitteeErrorType`, the errors that are thrown. -/
inductive SyncCommitteeErrorType where
  | NOT_CURRENT_SLOT (slot : Nat) (currentSlot : Int)
  | SYNC_COMMITTEE_ALREADY_KNOWN
  | VALIDATOR_NOT_IN_SYNC_COMMITTEE (validatorIndex : Nat)
  | INVALID_SIGNATURE
  | INVALID_SUBCOMMITTEE_INDEX (subcommitteeIndex : Nat)
  | NO_PARTICIPANT
  | INVALID_AGGREGATOR (aggregatorIndex : Nat)
  deriving DecidableEq

/-- What a validation throws: a `SyncCommitteeError`, or the error of a function it calls. -/
inductive GossipSyncError where
  | syncCommitteeError (action : GossipAction) (type : SyncCommitteeErrorType)
  | error (message : String)
  deriving DecidableEq

section

variable [Preset] {β : Type}

def SYNC_COMMITTEE_SUBNET_SIZE : Nat := SYNC_COMMITTEE_SIZE / SYNC_COMMITTEE_SUBNET_COUNT

/-- The clock and the head state, as a validation finds them. -/
structure GossipSyncChain (β : Type) where
  clock : GossipClock
  getHeadState : Except String (CachedBeaconStateAllForks β)
  /-- The first 8 bytes of the hash of a selection proof. -/
  hashSelectionProof : BLSSignature → Nat

/-- An async function of the chain on a seen cache; what it awaits is
`bls.verifySignatureSets`, whose promise may reject. -/
abbrev GossipSyncTask (α : Type) : Type :=
  Async SeenBySlot (List SyncSignatureSet) (fun _ => Except String Bool) GossipSyncError α

/-! ## The sync committee -/

def getIndexedSyncCommitteeAtEpoch (state : CachedBeaconStateAllForks β) (epoch : Nat) :
    Except String SyncCommitteeCache :=
  let empty := "Empty SyncCommitteeCache"
  if computeSyncPeriodAtEpoch epoch = state.epochCache.syncPeriod then
    (state.epochCache.currentSyncCommitteeIndexed).elim (.error empty) .ok
  else if computeSyncPeriodAtEpoch epoch = state.epochCache.syncPeriod + 1 then
    (state.epochCache.nextSyncCommitteeIndexed).elim (.error empty) .ok
  else .error s!"No sync committee for epoch {epoch}"

/-- Sync committee duties are offset by one slot. -/
def getIndexedSyncCommittee (state : CachedBeaconStateAllForks β) (slot : Nat) :
    Except String SyncCommitteeCache :=
  getIndexedSyncCommitteeAtEpoch state (computeEpochAtSlot (slot + 1))

/-- `none` for a validator that is not in the committee, or in another subnet. -/
def getIndexInSubcommittee (headState : CachedBeaconStateAllForks β) (subnet slot : Nat)
    (validatorIndex : Nat) : Except String (Option Nat) := do
  let syncCommittee ← getIndexedSyncCommittee headState slot
  match syncCommittee.validatorIndexMap.lookup validatorIndex with
  | none => return none
  | some indexesInCommittee =>
    return (indexesInCommittee.find? fun indexInCommittee =>
      indexInCommittee / SYNC_COMMITTEE_SUBNET_SIZE = subnet).map (· % SYNC_COMMITTEE_SUBNET_SIZE)

def validateGossipSyncCommitteeExceptSig (clock : GossipClock)
    (headState : CachedBeaconStateAllForks β) (subnet slot validatorIndex : Nat) :
    Except GossipSyncError Nat := do
  if ¬ clock.isCurrentSlotGivenGossipDisparity slot then
    throw (.syncCommitteeError .IGNORE (.NOT_CURRENT_SLOT slot clock.currentSlot))
  if subnet ≥ SYNC_COMMITTEE_SUBNET_COUNT then
    throw (.syncCommitteeError .REJECT (.INVALID_SUBCOMMITTEE_INDEX subnet))
  match ← (getIndexInSubcommittee headState subnet slot validatorIndex).mapError .error with
  | none => throw (.syncCommitteeError .REJECT (.VALIDATOR_NOT_IN_SYNC_COMMITTEE validatorIndex))
  | some indexInSubcommittee => return indexInSubcommittee

def verifySyncNotKnown (slot subnet validatorIndex : Nat) (seen : SeenBySlot) :
    Except GossipSyncError Unit :=
  if seen.isKnown slot subnet validatorIndex then
    .error (.syncCommitteeError .IGNORE .SYNC_COMMITTEE_ALREADY_KNOWN)
  else .ok ()

def verifySyncSignatures (answer : Except String Bool) : Except GossipSyncError Unit := do
  let valid ← answer.mapError .error
  if ¬ valid then throw (.syncCommitteeError .REJECT .INVALID_SIGNATURE)

def addSync (slot subnet validatorIndex : Nat) (seen : SeenBySlot) :
    Except GossipSyncError (Unit × SeenBySlot) :=
  .ok ((), seen.add slot subnet validatorIndex)

/-! ## Messages -/

/-- The checks before the cache is read. -/
def verifySyncCommittee (chain : GossipSyncChain β) (slot subnet validatorIndex : Nat) :
    Except GossipSyncError (CachedBeaconStateAllForks β × Nat) := do
  let headState ← chain.getHeadState.mapError .error
  let indexInSubcommittee ←
    validateGossipSyncCommitteeExceptSig chain.clock headState subnet slot validatorIndex
  return (headState, indexInSubcommittee)

/-- `validateGossipSyncCommittee`; the result is `indexInSubcommittee`. -/
def validateGossipSyncCommittee (chain : GossipSyncChain β) (syncCommittee : SyncCommitteeMessage)
    (subnet : Nat) : GossipSyncTask Nat := do
  let slot := syncCommittee.slot
  let validatorIndex := syncCommittee.validatorIndex
  let (_, indexInSubcommittee) ← Async.lift (verifySyncCommittee chain slot subnet validatorIndex)
  Async.read (verifySyncNotKnown slot subnet validatorIndex)
  let answer ← Async.await [.syncCommittee syncCommittee]
  Async.lift (verifySyncSignatures answer)
  Async.sync (addSync slot subnet validatorIndex)
  return indexInSubcommittee

/-! ## Contributions -/

/-- `getContributionPubkeys`, the validators; a bit beyond the committee has none. -/
def getContributionIndices (state : CachedBeaconStateAllForks β)
    (contribution : SyncCommitteeContribution) : Except String (List (Option Nat)) := do
  let subcommitteeSize := SYNC_COMMITTEE_SIZE / SYNC_COMMITTEE_SUBNET_COUNT
  let startIndex := contribution.subcommitteeIndex * subcommitteeSize
  let syncCommittee ← getIndexedSyncCommittee state contribution.slot
  return contribution.aggregationBits.zipIdx.filterMap fun (bit, i) =>
    if bit then some (syncCommittee.validatorIndices[startIndex + i]?) else none

/-- `isSelectionProofValid` and the modulus of a subcommittee. -/
def isSyncCommitteeAggregator (chain : GossipSyncChain β) (selectionProof : BLSSignature) : Bool :=
  let modulo := max 1
    (SYNC_COMMITTEE_SIZE / SYNC_COMMITTEE_SUBNET_COUNT / TARGET_AGGREGATORS_PER_SYNC_SUBCOMMITTEE)
  chain.hashSelectionProof selectionProof % modulo = 0

/-- The checks of a contribution after the cache is read. -/
def verifyContribution (chain : GossipSyncChain β) (headState : CachedBeaconStateAllForks β)
    (contributionAndProof : ContributionAndProof) : Except GossipSyncError (List (Option Nat)) := do
  let validatorIndices ←
    (getContributionIndices headState contributionAndProof.contribution).mapError .error
  if validatorIndices.length = 0 then throw (.syncCommitteeError .REJECT .NO_PARTICIPANT)
  if ¬ isSyncCommitteeAggregator chain contributionAndProof.selectionProof then
    throw (.syncCommitteeError .REJECT (.INVALID_AGGREGATOR contributionAndProof.aggregatorIndex))
  return validatorIndices

/-- `validateSyncCommitteeGossipContributionAndProof`; the result is `syncCommitteeParticipants`. -/
def validateSyncCommitteeGossipContributionAndProof (chain : GossipSyncChain β)
    (signedContributionAndProof : SignedContributionAndProof) : GossipSyncTask Nat := do
  let contributionAndProof := signedContributionAndProof.message
  let contribution := contributionAndProof.contribution
  let aggregatorIndex := contributionAndProof.aggregatorIndex
  let subcommitteeIndex := contribution.subcommitteeIndex
  let slot := contribution.slot
  let (headState, _) ←
    Async.lift (verifySyncCommittee chain slot subcommitteeIndex aggregatorIndex)
  Async.read (verifySyncNotKnown slot subcommitteeIndex aggregatorIndex)
  let validatorIndices ← Async.lift (verifyContribution chain headState contributionAndProof)
  let answer ← Async.await [.selectionProof contributionAndProof,
    .contributionAndProof signedContributionAndProof, .contribution contribution validatorIndices]
  Async.lift (verifySyncSignatures answer)
  Async.sync (addSync slot subcommitteeIndex aggregatorIndex)
  return validatorIndices.length

/-! ## Calls -/

/-- The arguments of `validateGossipSyncCommittee`. -/
structure SyncCommitteeCall (β : Type) where
  chain : GossipSyncChain β
  syncCommittee : SyncCommitteeMessage
  subnet : Nat

/-- The arguments of `validateSyncCommitteeGossipContributionAndProof`. -/
structure ContributionCall (β : Type) where
  chain : GossipSyncChain β
  signedContributionAndProof : SignedContributionAndProof

def SyncCommitteeCall.validate (args : SyncCommitteeCall β) : GossipSyncTask Nat :=
  validateGossipSyncCommittee args.chain args.syncCommittee args.subnet

def ContributionCall.validate (args : ContributionCall β) : GossipSyncTask Nat :=
  validateSyncCommitteeGossipContributionAndProof args.chain args.signedContributionAndProof

end

end Lodestar.Chain

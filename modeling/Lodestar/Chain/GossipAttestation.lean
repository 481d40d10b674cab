import Lodestar.Base.Async
import Lodestar.Base.OrderedMap
import Lodestar.ForkChoice.Interface
import Lodestar.StateTransition.EpochShuffling
import Lodestar.StateTransition.Operations

/-!
# Attestations from gossip

`chain/validation/attestation.ts` and `aggregateAndProof.ts`, with the
`SeenAttesters` they share. The clock and the fork choice are read before the
first await; the states and the checks of signatures are awaited.
-/

namespace Lodestar.Chain

open Lodestar.Base Lodestar.StateTransition
open Lodestar.ForkChoice (IProtoBlock)

/-! ## Seen attesters -/

/-- `MAX_EPOCHS`: the next, current and previous epochs. -/
def MAX_EPOCHS : Nat := 3

/-- Also `SeenAggregators`. -/
structure SeenAttesters where
  validatorIndexesByEpoch : OrderedMap Nat (Finset Nat)
  lowestPermissibleEpoch : Nat

namespace SeenAttesters

def new : SeenAttesters := ⟨.empty, 0⟩

variable (this : SeenAttesters)

def isKnown (targetEpoch validatorIndex : Nat) : Bool :=
  match this.validatorIndexesByEpoch.get targetEpoch with
  | some validatorIndexes => validatorIndex ∈ validatorIndexes
  | none => false

def add (targetEpoch validatorIndex : Nat) : Except String SeenAttesters :=
  if targetEpoch < this.lowestPermissibleEpoch then
    .error s!"EpochTooLow {targetEpoch} < {this.lowestPermissibleEpoch}"
  else
    .ok { this with
      validatorIndexesByEpoch := this.validatorIndexesByEpoch.set targetEpoch
        (insert validatorIndex ((this.validatorIndexesByEpoch.get targetEpoch).getD ∅)) }

def prune (currentEpoch : Nat) : SeenAttesters where
  lowestPermissibleEpoch := currentEpoch - MAX_EPOCHS
  validatorIndexesByEpoch :=
    (this.validatorIndexesByEpoch.keys.filter (· < currentEpoch - MAX_EPOCHS)).foldl
      (fun map epoch => map.delete epoch) this.validatorIndexesByEpoch

end SeenAttesters

/-! ## Errors -/

inductive GossipAction where
  | IGNORE
  | REJECT
  deriving DecidableEq

/-- `AttestationErrorType`, the errors that are thrown. -/
inductive AttestationErrorType where
  | BAD_TARGET_EPOCH
  | PAST_SLOT (earliestPermissibleSlot : Int) (attestationSlot : Nat)
  | FUTURE_SLOT (latestPermissibleSlot : Int) (attestationSlot : Nat)
  | NOT_EXACTLY_ONE_AGGREGATION_BIT_SET
  | UNKNOWN_BEACON_BLOCK_ROOT (root : RootHex)
  | INVALID_TARGET_ROOT (targetRoot : RootHex) (expected : Option RootHex)
  | MISSING_ATTESTATION_HEAD_STATE (error : String)
  | COMMITTEE_INDEX_OUT_OF_RANGE (index : Nat)
  | WRONG_NUMBER_OF_AGGREGATION_BITS
  | INVALID_SUBNET_ID (received expected : Nat)
  | ATTESTATION_ALREADY_KNOWN (targetEpoch validatorIndex : Nat)
  | AGGREGATOR_ALREADY_KNOWN (targetEpoch aggregatorIndex : Nat)
  | EMPTY_AGGREGATION_BITFIELD
  | INVALID_AGGREGATOR
  | AGGREGATOR_NOT_IN_COMMITTEE
  | INVALID_SIGNATURE
  deriving DecidableEq

/-- What a validation throws: an `AttestationError`, or the error of a function it calls. -/
inductive GossipError where
  | attestationError (action : GossipAction) (type : AttestationErrorType)
  | error (message : String)
  deriving DecidableEq

/-! ## Objects -/

structure AggregateAndProof where
  aggregatorIndex : Nat
  aggregate : Attestation
  selectionProof : BLSSignature

structure SignedAggregateAndProof where
  message : AggregateAndProof
  signature : BLSSignature

/-- A signature set, with the validators whose keys it is checked against. -/
inductive GossipSignatureSet where
  | indexedAttestation (indexedAttestation : IndexedAttestation)
  | selectionProof (slot aggregatorIndex : Nat) (selectionProof : BLSSignature)
  | aggregateAndProof (epoch aggregatorIndex : Nat) (signed : SignedAggregateAndProof)

/-- The clock and the fork choice, as a validation finds them. -/
structure GossipChain where
  /-- `clock.slotWithFutureTolerance(MAXIMUM_GOSSIP_CLOCK_DISPARITY_SEC)`. -/
  slotWithFutureTolerance : Int
  slotWithPastTolerance : Int
  getBlock : Root → Option IProtoBlock
  /-- The first 8 bytes of the hash of a selection proof. -/
  hashSelectionProof : BLSSignature → Nat

/-- What a validation awaits. -/
inductive GossipQuery where
  | getState (stateRoot : RootHex)
  | verifySignatureSets (signatureSets : List GossipSignatureSet)

def ATTESTATION_SUBNET_COUNT : Nat := 64

def TARGET_AGGREGATORS_PER_COMMITTEE : Nat := 16

/-! ## Aggregation bits -/

/-- The loop of `getSingleBitIndex`; `none` is `NOT_EXACTLY_ONE_BIT_SET`. -/
def singleBitLoop : List (Bool × Nat) → (index : Option Nat) → Option Nat
  | [], index => index
  | (false, _) :: bits, index => singleBitLoop bits index
  | (true, i) :: bits, none => singleBitLoop bits (some i)
  | (true, _) :: _, some _ => none

def getSingleBitIndex (bits : List Bool) : Option Nat := singleBitLoop bits.zipIdx none

section

variable [Preset] {β : Type}

/-- The answers; an error is a promise that rejects. -/
abbrev GossipAnswer (β : Type) : GossipQuery → Type
  | .getState _ => Except String (CachedBeaconStateAllForks β)
  | .verifySignatureSets _ => Except String Bool

/-- An async function of the chain on its `seenAttesters` or its `seenAggregators`. -/
abbrev GossipTask (β : Type) (α : Type) : Type :=
  Async SeenAttesters GossipQuery (GossipAnswer β) GossipError α

/-! ## Checks of both -/

def verifyPropagationSlotRange (chain : GossipChain) (attestationSlot : Nat) :
    Except GossipError Unit :=
  let latestPermissibleSlot := chain.slotWithFutureTolerance
  let earliestPermissibleSlot := max (chain.slotWithPastTolerance - SLOTS_PER_EPOCH) 0
  if attestationSlot < earliestPermissibleSlot then
    .error (.attestationError .IGNORE (.PAST_SLOT earliestPermissibleSlot attestationSlot))
  else if attestationSlot > latestPermissibleSlot then
    .error (.attestationError .IGNORE (.FUTURE_SLOT latestPermissibleSlot attestationSlot))
  else .ok ()

def verifyHeadBlockIsKnown (chain : GossipChain) (beaconBlockRoot : Root) :
    Except GossipError IProtoBlock :=
  match chain.getBlock beaconBlockRoot with
  | none => .error (.attestationError .IGNORE (.UNKNOWN_BEACON_BLOCK_ROOT beaconBlockRoot))
  | some headBlock => .ok headBlock

def verifyAttestationTargetRoot (headBlock : IProtoBlock) (targetRoot : Root)
    (attestationEpoch : Nat) : Except GossipError Unit :=
  let headBlockEpoch := computeEpochAtSlot headBlock.slot
  if headBlockEpoch > attestationEpoch then
    .error (.attestationError .REJECT (.INVALID_TARGET_ROOT targetRoot none))
  else
    let expectedTargetRoot :=
      if headBlockEpoch = attestationEpoch then headBlock.targetRoot else headBlock.blockRoot
    if expectedTargetRoot ≠ targetRoot then
      .error (.attestationError .REJECT (.INVALID_TARGET_ROOT targetRoot (some expectedTargetRoot)))
    else .ok ()

def verifyHeadBlockAndTargetRoot (chain : GossipChain) (beaconBlockRoot targetRoot : Root)
    (attestationEpoch : Nat) : Except GossipError IProtoBlock := do
  let headBlock ← verifyHeadBlockIsKnown chain beaconBlockRoot
  verifyAttestationTargetRoot headBlock targetRoot attestationEpoch
  return headBlock

/-- The `catch` of `regen.getState`. -/
def attestationHeadState (answer : Except String (CachedBeaconStateAllForks β)) :
    Except GossipError (CachedBeaconStateAllForks β) :=
  answer.mapError fun error =>
    .attestationError .REJECT (.MISSING_ATTESTATION_HEAD_STATE error)

def getCommitteeIndices (attestationTargetState : CachedBeaconStateAllForks β)
    (attestationSlot attestationIndex : Nat) : Except GossipError (List Nat) := do
  let shuffling ← (getShufflingAtEpoch attestationTargetState
    (computeEpochAtSlot attestationSlot)).mapError .error
  let slotCommittees := shuffling.committees.getD (attestationSlot % SLOTS_PER_EPOCH) []
  match slotCommittees[attestationIndex]? with
  | none => throw (.attestationError .REJECT (.COMMITTEE_INDEX_OUT_OF_RANGE attestationIndex))
  | some committeeIndices => return committeeIndices

/-- The subnet of a committee. -/
def computeSubnetForSlot (state : CachedBeaconStateAllForks β) (slot committeeIndex : Nat) :
    Except GossipError Nat := do
  let slotsSinceEpochStart := slot % SLOTS_PER_EPOCH
  let committeesPerSlot ← (getCommitteeCountPerSlot state (computeEpochAtSlot slot)).mapError .error
  let committeesSinceEpochStart := committeesPerSlot * slotsSinceEpochStart
  return (committeesSinceEpochStart + committeeIndex) % ATTESTATION_SUBNET_COUNT

def verifySignatureAnswer (answer : Except String Bool) : Except GossipError Unit := do
  let valid ← answer.mapError .error
  if ¬ valid then throw (.attestationError .REJECT .INVALID_SIGNATURE)

/-! ## Unaggregated attestations -/

/-- The checks before the first await. -/
def verifyEarlyChecks (chain : GossipChain) (attestation : Attestation) :
    Except GossipError (Nat × IProtoBlock) := do
  let attData := attestation.data
  let attSlot := attData.slot
  let attEpoch := computeEpochAtSlot attSlot
  let attTarget := attData.target
  if attTarget.epoch ≠ attEpoch then throw (.attestationError .REJECT .BAD_TARGET_EPOCH)
  verifyPropagationSlotRange chain attSlot
  let bitIndex ← match getSingleBitIndex attestation.aggregationBits with
    | none => throw (.attestationError .REJECT .NOT_EXACTLY_ONE_AGGREGATION_BIT_SET)
    | some bitIndex => pure bitIndex
  let attHeadBlock ← verifyHeadBlockAndTargetRoot chain attData.beaconBlockRoot attTarget.root attEpoch
  return (bitIndex, attHeadBlock)

/-- The checks on the state: the validator, and the subnet. -/
def verifyMiddleChecks (attHeadState : CachedBeaconStateAllForks β) (attestation : Attestation)
    (subnet : Option Nat) (bitIndex : Nat) : Except GossipError (Nat × Nat) := do
  let attSlot := attestation.data.slot
  let attIndex := attestation.data.index
  let committeeIndices ← getCommitteeIndices attHeadState attSlot attIndex
  -- it is undefined only if the next check fails
  let validatorIndex := committeeIndices.getD bitIndex 0
  if attestation.aggregationBits.length ≠ committeeIndices.length then
    throw (.attestationError .REJECT .WRONG_NUMBER_OF_AGGREGATION_BITS)
  let expectedSubnet ← computeSubnetForSlot attHeadState attSlot attIndex
  match subnet with
  | some subnet =>
    if subnet ≠ expectedSubnet then
      throw (.attestationError .REJECT (.INVALID_SUBNET_ID subnet expectedSubnet))
  | none => pure ()
  return (validatorIndex, expectedSubnet)

/-- No valid attestation of the validator has been seen for the target epoch. -/
def verifyAttesterNotKnown (targetEpoch validatorIndex : Nat) (seenAttesters : SeenAttesters) :
    Except GossipError Unit :=
  if seenAttesters.isKnown targetEpoch validatorIndex then
    .error (.attestationError .IGNORE (.ATTESTATION_ALREADY_KNOWN targetEpoch validatorIndex))
  else .ok ()

def addSeen (targetEpoch validatorIndex : Nat) (seen : SeenAttesters) :
    Except GossipError (Unit × SeenAttesters) :=
  ((seen.add targetEpoch validatorIndex).map ((), ·)).mapError .error

structure AttestationValidationResult where
  indexedAttestation : IndexedAttestation
  subnet : Nat

def validateGossipAttestation (chain : GossipChain) (attestation : Attestation)
    (subnet : Option Nat) : GossipTask β AttestationValidationResult := do
  let targetEpoch := attestation.data.target.epoch
  let (bitIndex, attHeadBlock) ← Async.lift (verifyEarlyChecks chain attestation)
  let answer ← Async.await (.getState attHeadBlock.stateRoot)
  let attHeadState ← Async.lift (attestationHeadState answer)
  let (validatorIndex, expectedSubnet) ←
    Async.lift (verifyMiddleChecks attHeadState attestation subnet bitIndex)
  Async.read (verifyAttesterNotKnown targetEpoch validatorIndex)
  let indexedAttestation : IndexedAttestation :=
    { attestingIndices := [validatorIndex]
      data := attestation.data
      signature := attestation.signature }
  let answer ← Async.await (.verifySignatureSets [.indexedAttestation indexedAttestation])
  Async.lift (verifySignatureAnswer answer)
  -- another attestation may have been seen meanwhile
  Async.read (verifyAttesterNotKnown targetEpoch validatorIndex)
  Async.sync (addSeen targetEpoch validatorIndex)
  return { indexedAttestation, subnet := expectedSubnet }

/-! ## Aggregates -/

def isSelectionProofValid (chain : GossipChain) (sig : BLSSignature) (modulo : Nat) : Bool :=
  chain.hashSelectionProof sig % modulo = 0

def isAggregatorFromCommitteeLength (chain : GossipChain) (committeeLength : Nat)
    (slotSignature : BLSSignature) : Bool :=
  isSelectionProofValid chain slotSignature
    (max 1 (committeeLength / TARGET_AGGREGATORS_PER_COMMITTEE))

/-- The checks of an aggregate before its aggregator is looked up. -/
def verifyAggregateSlot (chain : GossipChain) (aggregate : Attestation) :
    Except GossipError Unit := do
  if aggregate.data.target.epoch ≠ computeEpochAtSlot aggregate.data.slot then
    throw (.attestationError .REJECT .BAD_TARGET_EPOCH)
  verifyPropagationSlotRange chain aggregate.data.slot

def verifyAggregatorNotKnown (targetEpoch aggregatorIndex : Nat) (seenAggregators : SeenAttesters) :
    Except GossipError Unit :=
  if seenAggregators.isKnown targetEpoch aggregatorIndex then
    .error (.attestationError .IGNORE (.AGGREGATOR_ALREADY_KNOWN targetEpoch aggregatorIndex))
  else .ok ()

/-- The checks of an aggregate on the state: its committee, and those of it whose bit is set. -/
def verifyAggregateCommittee (chain : GossipChain) (attHeadState : CachedBeaconStateAllForks β)
    (aggregateAndProof : AggregateAndProof) : Except GossipError (List Nat × List Nat) := do
  let aggregate := aggregateAndProof.aggregate
  let committeeIndices ← getCommitteeIndices attHeadState aggregate.data.slot aggregate.data.index
  let attestingIndices := zipIndexesCommitteeBits committeeIndices aggregate.aggregationBits
  if attestingIndices.length < 1 then
    throw (.attestationError .REJECT .EMPTY_AGGREGATION_BITFIELD)
  if ¬ isAggregatorFromCommitteeLength chain committeeIndices.length
      aggregateAndProof.selectionProof then
    throw (.attestationError .REJECT .INVALID_AGGREGATOR)
  if aggregateAndProof.aggregatorIndex ∉ committeeIndices then
    throw (.attestationError .REJECT .AGGREGATOR_NOT_IN_COMMITTEE)
  return (committeeIndices, attestingIndices)

structure AggregateValidationResult where
  indexedAttestation : IndexedAttestation
  committeeIndices : List Nat

def validateGossipAggregateAndProof (chain : GossipChain)
    (signedAggregateAndProof : SignedAggregateAndProof) :
    GossipTask β AggregateValidationResult := do
  let aggregateAndProof := signedAggregateAndProof.message
  let aggregate := aggregateAndProof.aggregate
  let attData := aggregate.data
  let attEpoch := computeEpochAtSlot attData.slot
  let targetEpoch := attData.target.epoch
  Async.lift (verifyAggregateSlot chain aggregate)
  let aggregatorIndex := aggregateAndProof.aggregatorIndex
  Async.read (verifyAggregatorNotKnown targetEpoch aggregatorIndex)
  let attHeadBlock ← Async.lift
    (verifyHeadBlockAndTargetRoot chain attData.beaconBlockRoot attData.target.root attEpoch)
  let answer ← Async.await (.getState attHeadBlock.stateRoot)
  let attHeadState ← Async.lift (attestationHeadState answer)
  let (committeeIndices, attestingIndices) ←
    Async.lift (verifyAggregateCommittee chain attHeadState aggregateAndProof)
  let indexedAttestation : IndexedAttestation :=
    { attestingIndices, data := attData, signature := aggregate.signature }
  let answer ← Async.await (.verifySignatureSets
    [.selectionProof attData.slot aggregatorIndex aggregateAndProof.selectionProof,
      .aggregateAndProof attEpoch aggregatorIndex signedAggregateAndProof,
      .indexedAttestation indexedAttestation])
  Async.lift (verifySignatureAnswer answer)
  -- another aggregate may have been seen meanwhile
  Async.read (verifyAggregatorNotKnown targetEpoch aggregatorIndex)
  Async.sync (addSeen targetEpoch aggregatorIndex)
  return { indexedAttestation, committeeIndices }

/-! ## Calls -/

/-- The arguments of `validateGossipAttestation`. -/
structure AttestationCall where
  chain : GossipChain
  attestation : Attestation
  subnet : Option Nat

/-- The arguments of `validateGossipAggregateAndProof`. -/
structure AggregateCall where
  chain : GossipChain
  signedAggregateAndProof : SignedAggregateAndProof

def AttestationCall.validate (β : Type) (args : AttestationCall) :
    GossipTask β AttestationValidationResult :=
  validateGossipAttestation args.chain args.attestation args.subnet

def AggregateCall.validate (β : Type) (args : AggregateCall) :
    GossipTask β AggregateValidationResult :=
  validateGossipAggregateAndProof args.chain args.signedAggregateAndProof

end

/-! ## Committees of three -/

section

attribute [local instance] minimal

/-- A state of epoch 3, with 24 validators. -/
def gossipState : CachedBeaconStateAllForks (List Nat) where
  config := chainConfigMinimal
  slot := 25
  validators := []
  balanceList := []
  slashings := []
  finalizedCheckpoint := ⟨1, 0xa1⟩
  inactivityScores := []
  epochCtx :=
    { previousShuffling := ⟨2, List.range 24⟩
      currentShuffling := ⟨3, List.range 24⟩
      nextShuffling := ⟨4, List.range 24⟩
      effectiveBalanceIncrements := List.replicate 24 32
      totalActiveBalanceIncrements := 768
      churnLimit := 4
      exitQueueEpoch := 8
      exitQueueChurn := 0
      epoch := 3 }
  blockRoots := Vector.replicate 64 0xb0
  randaoMixes := Vector.replicate 64 0
  justificationBits := Vector.replicate 4 false
  previousJustifiedCheckpoint := ⟨1, 0xa1⟩
  currentJustifiedCheckpoint := ⟨2, 0xa2⟩
  epochCache :=
    { previousCommittees := computeEpochShuffling (List.range 24)
      currentCommittees := computeEpochShuffling (List.range 24)
      nextCommittees := computeEpochShuffling (List.range 24)
      proposers := List.range 8
      syncParticipantReward := 0
      baseRewardPerIncrement := 0
      currentSyncCommitteeIndexed := none
      nextSyncCommitteeIndexed := none
      syncPeriod := 0 }

/-- The block of slot 25, whose state it is. -/
def gossipBlock : IProtoBlock where
  slot := 25
  blockRoot := 0xb0
  parentRoot := 0xb1
  stateRoot := 0x50
  targetRoot := 0xa3
  justifiedEpoch := 2
  justifiedRoot := 0xa2
  finalizedEpoch := 1
  finalizedRoot := 0xa1
  execution := .preMerge

def gossipChain : GossipChain where
  slotWithFutureTolerance := 26
  slotWithPastTolerance := 26
  getBlock root := if root = 0xb0 then some gossipBlock else none
  hashSelectionProof _ := 0

/-- A vote of slot 25, whose committee is 3, 4 and 5. -/
def gossipAttestation (aggregationBits : List Bool) : Attestation :=
  ⟨aggregationBits, ⟨25, 0, 0xb0, ⟨2, 0xa2⟩, ⟨3, 0xa3⟩⟩, 0⟩

/-- The vote of validator 4. -/
def singleVote : AttestationCall := ⟨gossipChain, gossipAttestation [false, true, false], some 1⟩

/-- An aggregate of validator 3. -/
def aggregateVote (aggregationBits : List Bool) : AggregateCall :=
  ⟨gossipChain, ⟨⟨3, gossipAttestation aggregationBits, 0⟩, 0⟩⟩

end

end Lodestar.Chain

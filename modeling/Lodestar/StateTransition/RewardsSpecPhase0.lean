import Mathlib.Data.List.MinMax
import Lodestar.StateTransition.EpochProcess
import Lodestar.StateTransition.RewardsSpec

/-!
# Attestation deltas of the phase0 spec

Committees and block roots are read where the state has them; where the spec
would fail, no attester attests and no root matches.
-/

namespace Lodestar.StateTransition.Spec

variable [Preset] {β : Type}

/-! ## Attestations -/

/-- `get_attesting_indices`. -/
def getAttestingIndices (state : CachedBeaconStateAllForks β) (att : PendingAttestation) : List Nat :=
  match getBeaconCommittee state att.data.slot att.data.index with
  | .ok committee => zipIndexesCommitteeBits committee att.aggregationBits
  | .error _ => []

def isBlockRoot (blockRoot : Except String Root) (root : Root) : Bool :=
  match blockRoot with
  | .ok blockRoot => root = blockRoot
  | .error _ => false

/-- `get_matching_target_attestations` of the source attestations: membership. -/
def isMatchingTarget (state : CachedBeaconStateAllForks β) (epoch : Nat) (att : PendingAttestation) :
    Bool :=
  isBlockRoot (getBlockRoot state epoch) att.data.target.root

/-- `get_matching_head_attestations`: membership. -/
def isMatchingHead (state : CachedBeaconStateAllForks β) (epoch : Nat) (att : PendingAttestation) :
    Bool :=
  isMatchingTarget state epoch att
    && isBlockRoot (getBlockRootAtSlot state att.data.slot) att.data.beaconBlockRoot

/-- The parts of a vote. -/
inductive Component where
  | source
  | target
  | head
  deriving DecidableEq

def isMatching (state : CachedBeaconStateAllForks β) (epoch : Nat) :
    Component → PendingAttestation → Bool
  | .source => fun _ => true
  | .target => isMatchingTarget state epoch
  | .head => isMatchingHead state epoch

/-- `get_unslashed_attesting_indices`: membership. -/
def isUnslashedAttesting (state : CachedBeaconStateAllForks β)
    (attestations : List PendingAttestation) (index : Nat) : Bool :=
  decide (index < state.validators.length)
    && (attestations.any (fun att => decide (index ∈ getAttestingIndices state att))
      && !isSlashed state.validators index)

def getUnslashedAttestingIndices (state : CachedBeaconStateAllForks β)
    (attestations : List PendingAttestation) : List Nat :=
  (List.range state.validators.length).filter (isUnslashedAttesting state attestations)

/-! ## Base rewards -/

/-- `get_base_reward` of phase0. -/
def getBaseRewardPhase0 (validators : List Validator) (currentEpoch index : Nat) : Nat :=
  getEffectiveBalance validators index * BASE_REWARD_FACTOR
    / Nat.sqrt (getTotalActiveBalance validators currentEpoch) / BASE_REWARDS_PER_EPOCH

/-- `get_proposer_reward`. -/
def getProposerReward (validators : List Validator) (currentEpoch index : Nat) : Nat :=
  getBaseRewardPhase0 validators currentEpoch index / PROPOSER_REWARD_QUOTIENT

/-! ## Deltas -/

/-- The previous epoch's attestations with the component. -/
def matchingAttestations (state : CachedBeaconStatePhase0 β) (component : Component) :
    List PendingAttestation :=
  state.previousEpochAttestations.filter
    (isMatching state.toCachedBeaconStateAllForks (computeEpochAtSlot state.slot - 1) component)

/-- `get_attestation_component_deltas`: the reward of one validator. -/
def getComponentReward (state : CachedBeaconStatePhase0 β) (component : Component) (index : Nat) :
    Nat :=
  let currentEpoch := computeEpochAtSlot state.slot
  let previousEpoch := currentEpoch - 1
  let attestations := matchingAttestations state component
  let attestingBalance := getTotalBalance state.validators
    (getUnslashedAttestingIndices state.toCachedBeaconStateAllForks attestations)
  let baseReward := getBaseRewardPhase0 state.validators currentEpoch index
  if isEligible state.validators previousEpoch index
      && isUnslashedAttesting state.toCachedBeaconStateAllForks attestations index then
    if isInInactivityLeak previousEpoch state.finalizedCheckpoint.epoch then baseReward
    else baseReward * (attestingBalance / EFFECTIVE_BALANCE_INCREMENT)
      / (getTotalActiveBalance state.validators currentEpoch / EFFECTIVE_BALANCE_INCREMENT)
  else 0

/-- `get_attestation_component_deltas`: the penalty of one validator. -/
def getComponentPenalty (state : CachedBeaconStatePhase0 β) (component : Component) (index : Nat) :
    Nat :=
  let currentEpoch := computeEpochAtSlot state.slot
  if isEligible state.validators (currentEpoch - 1) index
      && !isUnslashedAttesting state.toCachedBeaconStateAllForks
        (matchingAttestations state component) index then
    getBaseRewardPhase0 state.validators currentEpoch index
  else 0

/-- The attestation an attester is credited through: of minimal delay, the first of them. -/
def inclusionAttestation (state : CachedBeaconStatePhase0 β) (index : Nat) :
    Option PendingAttestation :=
  (state.previousEpochAttestations.filter fun att =>
    decide (index ∈ getAttestingIndices state.toCachedBeaconStateAllForks att)).argmin
      (·.inclusionDelay)

/-- What `get_inclusion_delay_deltas` adds at `index` on behalf of the attester. -/
def getInclusionDelayRewardFor (state : CachedBeaconStatePhase0 β) (attester index : Nat) : Nat :=
  let currentEpoch := computeEpochAtSlot state.slot
  let proposerReward := getProposerReward state.validators currentEpoch attester
  if isUnslashedAttesting state.toCachedBeaconStateAllForks state.previousEpochAttestations
      attester then
    match inclusionAttestation state attester with
    | none => 0
    | some att =>
      (if att.proposerIndex = index then proposerReward else 0)
        + (if attester = index then
            (getBaseRewardPhase0 state.validators currentEpoch attester - proposerReward)
              / att.inclusionDelay
          else 0)
  else 0

/-- `get_inclusion_delay_deltas`: the reward of one validator. -/
def getInclusionDelayReward (state : CachedBeaconStatePhase0 β) (index : Nat) : Nat :=
  ((List.range state.validators.length).map
    fun attester => getInclusionDelayRewardFor state attester index).sum

/-- `get_inactivity_penalty_deltas` of phase0: the penalty of one validator. -/
def getInactivityPenaltyPhase0 (state : CachedBeaconStatePhase0 β) (index : Nat) : Nat :=
  let currentEpoch := computeEpochAtSlot state.slot
  let previousEpoch := currentEpoch - 1
  if isInInactivityLeak previousEpoch state.finalizedCheckpoint.epoch
      && isEligible state.validators previousEpoch index then
    BASE_REWARDS_PER_EPOCH * getBaseRewardPhase0 state.validators currentEpoch index
        - getProposerReward state.validators currentEpoch index
      + (if isUnslashedAttesting state.toCachedBeaconStateAllForks
            (matchingAttestations state .target) index then 0
        else getEffectiveBalance state.validators index
          * (previousEpoch - state.finalizedCheckpoint.epoch) / INACTIVITY_PENALTY_QUOTIENT)
  else 0

end Lodestar.StateTransition.Spec

import Lodestar.StateTransition.State

/-!
# Stakes and rewards of the consensus spec

The functions of the spec that the rewards of both forks are measured against.
Sets of validators are lists of indices, in index order.
-/

namespace Lodestar.StateTransition.Spec

variable [Preset]

def getEffectiveBalance (validators : List Validator) (index : Nat) : Nat :=
  match validators[index]? with
  | some validator => validator.effectiveBalance
  | none => 0

def isActive (validators : List Validator) (epoch index : Nat) : Bool :=
  validators[index]?.any (isActiveValidator · epoch)

def isSlashed (validators : List Validator) (index : Nat) : Bool :=
  validators[index]?.any (·.slashed)

/-- `get_active_validator_indices`. -/
def getActiveValidatorIndices (validators : List Validator) (epoch : Nat) : List Nat :=
  (List.range validators.length).filter (isActive validators epoch)

/-- `get_total_balance`, one increment at least. -/
def getTotalBalance (validators : List Validator) (indices : List Nat) : Nat :=
  max EFFECTIVE_BALANCE_INCREMENT (indices.map (getEffectiveBalance validators)).sum

/-- `get_total_active_balance`. -/
def getTotalActiveBalance (validators : List Validator) (currentEpoch : Nat) : Nat :=
  getTotalBalance validators (getActiveValidatorIndices validators currentEpoch)

/-- `get_eligible_validator_indices`: membership. -/
def isEligible (validators : List Validator) (previousEpoch index : Nat) : Bool :=
  validators[index]?.any fun validator =>
    isActiveValidator validator previousEpoch
      || validator.slashed && decide (((previousEpoch + 1 : Nat) : WithTop Nat) < validator.withdrawableEpoch)

/-- `is_in_inactivity_leak`. -/
def isInInactivityLeak (previousEpoch finalizedEpoch : Nat) : Bool :=
  decide (MIN_EPOCHS_TO_INACTIVITY_PENALTY < previousEpoch - finalizedEpoch)

/-! ## Altair -/

/-- `has_flag`. -/
def hasFlag (flags : ParticipationFlags) (flagIndex : Nat) : Bool :=
  flags.getLsbD flagIndex

/-- `get_base_reward_per_increment`. -/
def getBaseRewardPerIncrement (validators : List Validator) (currentEpoch : Nat) : Nat :=
  EFFECTIVE_BALANCE_INCREMENT * BASE_REWARD_FACTOR
    / Nat.sqrt (getTotalActiveBalance validators currentEpoch)

/-- `get_base_reward` of altair. -/
def getBaseReward (validators : List Validator) (currentEpoch index : Nat) : Nat :=
  getEffectiveBalance validators index / EFFECTIVE_BALANCE_INCREMENT
    * getBaseRewardPerIncrement validators currentEpoch

variable {β : Type}

/-- `get_unslashed_participating_indices` of the previous epoch: membership. -/
def isUnslashedParticipating (state : CachedBeaconStateAltair β) (flagIndex previousEpoch index : Nat) :
    Bool :=
  isActive state.validators previousEpoch index
    && (state.previousEpochParticipation[index]?.any (hasFlag · flagIndex)
      && !isSlashed state.validators index)

/-- `get_unslashed_participating_indices` of the previous epoch. -/
def getUnslashedParticipatingIndices (state : CachedBeaconStateAltair β)
    (flagIndex previousEpoch : Nat) : List Nat :=
  (List.range state.validators.length).filter
    (isUnslashedParticipating state flagIndex previousEpoch)

/-- `get_flag_index_deltas`: the reward of one validator. -/
def getFlagIndexReward (state : CachedBeaconStateAltair β) (flagIndex index : Nat) : Nat :=
  let currentEpoch := computeEpochAtSlot state.slot
  let previousEpoch := currentEpoch - 1
  let weight := PARTICIPATION_FLAG_WEIGHTS.getD flagIndex 0
  let unslashedParticipatingIncrements :=
    getTotalBalance state.validators (getUnslashedParticipatingIndices state flagIndex previousEpoch)
      / EFFECTIVE_BALANCE_INCREMENT
  let activeIncrements :=
    getTotalActiveBalance state.validators currentEpoch / EFFECTIVE_BALANCE_INCREMENT
  if isEligible state.validators previousEpoch index
      && (isUnslashedParticipating state flagIndex previousEpoch index
        && !isInInactivityLeak previousEpoch state.finalizedCheckpoint.epoch) then
    getBaseReward state.validators currentEpoch index * weight * unslashedParticipatingIncrements
      / (activeIncrements * WEIGHT_DENOMINATOR)
  else 0

/-- `get_flag_index_deltas`: the penalty of one validator. -/
def getFlagIndexPenalty (state : CachedBeaconStateAltair β) (flagIndex index : Nat) : Nat :=
  let currentEpoch := computeEpochAtSlot state.slot
  let previousEpoch := currentEpoch - 1
  let weight := PARTICIPATION_FLAG_WEIGHTS.getD flagIndex 0
  if isEligible state.validators previousEpoch index
      && (!isUnslashedParticipating state flagIndex previousEpoch index
        && flagIndex ≠ TIMELY_HEAD_FLAG_INDEX) then
    getBaseReward state.validators currentEpoch index * weight / WEIGHT_DENOMINATOR
  else 0

/-- `get_inactivity_penalty_deltas` of altair: the penalty of one validator. -/
def getInactivityPenalty (state : CachedBeaconStateAltair β) (index : Nat) : Nat :=
  let previousEpoch := computeEpochAtSlot state.slot - 1
  if isEligible state.validators previousEpoch index
      && !isUnslashedParticipating state TIMELY_TARGET_FLAG_INDEX previousEpoch index then
    getEffectiveBalance state.validators index * state.inactivityScores.getD index 0
      / (state.config.INACTIVITY_SCORE_BIAS * INACTIVITY_PENALTY_QUOTIENT_ALTAIR)
  else 0

end Lodestar.StateTransition.Spec

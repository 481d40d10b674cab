import Lodestar.Types
import Mathlib.Order.WithBot
import Mathlib.Algebra.Order.Monoid.WithTop

/-!
# Presets and chain configuration

The constants of `packages/params` and `packages/config` that the modelled
functions read. The preset is chosen once for a process, so it is a class; what
its authors rely on (a divisor is not zero, a quotient is exact) is a field.
-/

namespace Lodestar

def GENESIS_SLOT : Nat := 0

def GENESIS_EPOCH : Nat := 0

/-- `Infinity`. -/
def FAR_FUTURE_EPOCH : WithTop Nat := ⊤

/-! ## Weights -/

def TIMELY_SOURCE_FLAG_INDEX : Nat := 0
def TIMELY_TARGET_FLAG_INDEX : Nat := 1
def TIMELY_HEAD_FLAG_INDEX : Nat := 2

def TIMELY_SOURCE_WEIGHT : Nat := 14
def TIMELY_TARGET_WEIGHT : Nat := 26
def TIMELY_HEAD_WEIGHT : Nat := 14
def SYNC_REWARD_WEIGHT : Nat := 2
def PROPOSER_WEIGHT : Nat := 8
def WEIGHT_DENOMINATOR : Nat := 64

/-- By flag index. -/
def PARTICIPATION_FLAG_WEIGHTS : List Nat :=
  [TIMELY_SOURCE_WEIGHT, TIMELY_TARGET_WEIGHT, TIMELY_HEAD_WEIGHT]

/-- `BASE_REWARDS_PER_EPOCH` of `constants`. -/
def BASE_REWARDS_PER_EPOCH : Nat := 4

/-- The intervals of a slot that the fork choice tells a timely block by. -/
def INTERVALS_PER_SLOT : Nat := 3

/-! ## Light clients -/

def FINALIZED_ROOT_GINDEX : Nat := 105
def FINALIZED_ROOT_INDEX : Nat := 41
def FINALIZED_ROOT_DEPTH : Nat := 6
def NEXT_SYNC_COMMITTEE_INDEX : Nat := 23
def NEXT_SYNC_COMMITTEE_DEPTH : Nat := 5

/-! ## Presets -/

class Preset where
  SLOTS_PER_EPOCH : Nat
  MIN_ATTESTATION_INCLUSION_DELAY : Nat
  MIN_SEED_LOOKAHEAD : Nat
  MAX_SEED_LOOKAHEAD : Nat
  SAFE_SLOTS_TO_UPDATE_JUSTIFIED : Nat
  EPOCHS_PER_ETH1_VOTING_PERIOD : Nat
  SLOTS_PER_HISTORICAL_ROOT : Nat
  EPOCHS_PER_HISTORICAL_VECTOR : Nat
  MIN_EPOCHS_TO_INACTIVITY_PENALTY : Nat
  EPOCHS_PER_SLASHINGS_VECTOR : Nat
  EFFECTIVE_BALANCE_INCREMENT : Nat
  MAX_EFFECTIVE_BALANCE : Nat
  HYSTERESIS_QUOTIENT : Nat
  HYSTERESIS_DOWNWARD_MULTIPLIER : Nat
  HYSTERESIS_UPWARD_MULTIPLIER : Nat
  BASE_REWARD_FACTOR : Nat
  PROPOSER_REWARD_QUOTIENT : Nat
  INACTIVITY_PENALTY_QUOTIENT : Nat
  INACTIVITY_PENALTY_QUOTIENT_ALTAIR : Nat
  INACTIVITY_PENALTY_QUOTIENT_BELLATRIX : Nat
  WHISTLEBLOWER_REWARD_QUOTIENT : Nat
  MIN_SLASHING_PENALTY_QUOTIENT : Nat
  MIN_SLASHING_PENALTY_QUOTIENT_ALTAIR : Nat
  MIN_SLASHING_PENALTY_QUOTIENT_BELLATRIX : Nat
  PROPORTIONAL_SLASHING_MULTIPLIER : Nat
  PROPORTIONAL_SLASHING_MULTIPLIER_ALTAIR : Nat
  PROPORTIONAL_SLASHING_MULTIPLIER_BELLATRIX : Nat
  MAX_COMMITTEES_PER_SLOT : Nat
  TARGET_COMMITTEE_SIZE : Nat
  SHUFFLE_ROUND_COUNT : Nat
  MAX_VALIDATORS_PER_COMMITTEE : Nat
  MAX_PROPOSER_SLASHINGS : Nat
  MAX_ATTESTER_SLASHINGS : Nat
  MAX_ATTESTATIONS : Nat
  MAX_DEPOSITS : Nat
  MAX_VOLUNTARY_EXITS : Nat
  SYNC_COMMITTEE_SIZE : Nat
  MIN_SYNC_COMMITTEE_PARTICIPANTS : Nat
  EPOCHS_PER_SYNC_COMMITTEE_PERIOD : Nat
  SLOTS_PER_EPOCH_pos : 0 < SLOTS_PER_EPOCH
  /-- A voting period is longer than an epoch. -/
  EPOCHS_PER_ETH1_VOTING_PERIOD_gt : 1 < EPOCHS_PER_ETH1_VOTING_PERIOD
  SLOTS_PER_HISTORICAL_ROOT_pos : 0 < SLOTS_PER_HISTORICAL_ROOT
  /-- The block roots of an epoch are kept beyond its end. -/
  SLOTS_PER_HISTORICAL_ROOT_ge : SLOTS_PER_EPOCH ≤ SLOTS_PER_HISTORICAL_ROOT
  EPOCHS_PER_HISTORICAL_VECTOR_pos : 0 < EPOCHS_PER_HISTORICAL_VECTOR
  EFFECTIVE_BALANCE_INCREMENT_pos : 0 < EFFECTIVE_BALANCE_INCREMENT
  /-- An effective balance is an increment at least, and its increments fit a byte. -/
  MAX_EFFECTIVE_BALANCE_ge : EFFECTIVE_BALANCE_INCREMENT ≤ MAX_EFFECTIVE_BALANCE
  MAX_EFFECTIVE_BALANCE_lt : MAX_EFFECTIVE_BALANCE / EFFECTIVE_BALANCE_INCREMENT < 2 ^ 8
  HYSTERESIS_QUOTIENT_dvd : HYSTERESIS_QUOTIENT ∣ EFFECTIVE_BALANCE_INCREMENT
  /-- No balance moves up that is not a whole increment. -/
  HYSTERESIS_UPWARD_MULTIPLIER_ge : HYSTERESIS_QUOTIENT ≤ HYSTERESIS_UPWARD_MULTIPLIER
  /-- The epoch after the next is decided when an epoch ends. -/
  MAX_SEED_LOOKAHEAD_gt : 1 < MAX_SEED_LOOKAHEAD
  MAX_PROPOSER_SLASHINGS_pos : 0 < MAX_PROPOSER_SLASHINGS
  MAX_VOLUNTARY_EXITS_pos : 0 < MAX_VOLUNTARY_EXITS
  SYNC_COMMITTEE_SIZE_pos : 0 < SYNC_COMMITTEE_SIZE

export Preset (SLOTS_PER_EPOCH MIN_ATTESTATION_INCLUSION_DELAY MIN_SEED_LOOKAHEAD MAX_SEED_LOOKAHEAD
  SAFE_SLOTS_TO_UPDATE_JUSTIFIED EPOCHS_PER_ETH1_VOTING_PERIOD SLOTS_PER_HISTORICAL_ROOT
  EPOCHS_PER_HISTORICAL_VECTOR MIN_EPOCHS_TO_INACTIVITY_PENALTY EPOCHS_PER_SLASHINGS_VECTOR
  EFFECTIVE_BALANCE_INCREMENT MAX_EFFECTIVE_BALANCE HYSTERESIS_QUOTIENT
  HYSTERESIS_DOWNWARD_MULTIPLIER HYSTERESIS_UPWARD_MULTIPLIER BASE_REWARD_FACTOR
  PROPOSER_REWARD_QUOTIENT INACTIVITY_PENALTY_QUOTIENT INACTIVITY_PENALTY_QUOTIENT_ALTAIR
  INACTIVITY_PENALTY_QUOTIENT_BELLATRIX WHISTLEBLOWER_REWARD_QUOTIENT MIN_SLASHING_PENALTY_QUOTIENT
  MIN_SLASHING_PENALTY_QUOTIENT_ALTAIR MIN_SLASHING_PENALTY_QUOTIENT_BELLATRIX
  PROPORTIONAL_SLASHING_MULTIPLIER PROPORTIONAL_SLASHING_MULTIPLIER_ALTAIR
  PROPORTIONAL_SLASHING_MULTIPLIER_BELLATRIX
  MAX_COMMITTEES_PER_SLOT TARGET_COMMITTEE_SIZE SHUFFLE_ROUND_COUNT MAX_VALIDATORS_PER_COMMITTEE
  MAX_PROPOSER_SLASHINGS MAX_ATTESTER_SLASHINGS MAX_ATTESTATIONS MAX_DEPOSITS MAX_VOLUNTARY_EXITS
  SYNC_COMMITTEE_SIZE MIN_SYNC_COMMITTEE_PARTICIPANTS EPOCHS_PER_SYNC_COMMITTEE_PERIOD)

/-- `presets/mainnet`. -/
@[reducible] def mainnet : Preset where
  SLOTS_PER_EPOCH := 32
  MIN_ATTESTATION_INCLUSION_DELAY := 1
  MIN_SEED_LOOKAHEAD := 1
  MAX_SEED_LOOKAHEAD := 4
  SAFE_SLOTS_TO_UPDATE_JUSTIFIED := 8
  EPOCHS_PER_ETH1_VOTING_PERIOD := 64
  SLOTS_PER_HISTORICAL_ROOT := 8192
  EPOCHS_PER_HISTORICAL_VECTOR := 65536
  MIN_EPOCHS_TO_INACTIVITY_PENALTY := 4
  EPOCHS_PER_SLASHINGS_VECTOR := 8192
  EFFECTIVE_BALANCE_INCREMENT := 1000000000
  MAX_EFFECTIVE_BALANCE := 32000000000
  HYSTERESIS_QUOTIENT := 4
  HYSTERESIS_DOWNWARD_MULTIPLIER := 1
  HYSTERESIS_UPWARD_MULTIPLIER := 5
  BASE_REWARD_FACTOR := 64
  PROPOSER_REWARD_QUOTIENT := 8
  INACTIVITY_PENALTY_QUOTIENT := 67108864
  INACTIVITY_PENALTY_QUOTIENT_ALTAIR := 50331648
  INACTIVITY_PENALTY_QUOTIENT_BELLATRIX := 16777216
  WHISTLEBLOWER_REWARD_QUOTIENT := 512
  MIN_SLASHING_PENALTY_QUOTIENT := 128
  MIN_SLASHING_PENALTY_QUOTIENT_ALTAIR := 64
  MIN_SLASHING_PENALTY_QUOTIENT_BELLATRIX := 32
  PROPORTIONAL_SLASHING_MULTIPLIER := 1
  PROPORTIONAL_SLASHING_MULTIPLIER_ALTAIR := 2
  PROPORTIONAL_SLASHING_MULTIPLIER_BELLATRIX := 3
  MAX_COMMITTEES_PER_SLOT := 64
  TARGET_COMMITTEE_SIZE := 128
  SHUFFLE_ROUND_COUNT := 90
  MAX_VALIDATORS_PER_COMMITTEE := 2048
  MAX_PROPOSER_SLASHINGS := 16
  MAX_ATTESTER_SLASHINGS := 2
  MAX_ATTESTATIONS := 128
  MAX_DEPOSITS := 16
  MAX_VOLUNTARY_EXITS := 16
  SYNC_COMMITTEE_SIZE := 512
  MIN_SYNC_COMMITTEE_PARTICIPANTS := 1
  EPOCHS_PER_SYNC_COMMITTEE_PERIOD := 256
  SLOTS_PER_EPOCH_pos := by decide
  EPOCHS_PER_ETH1_VOTING_PERIOD_gt := by decide
  SLOTS_PER_HISTORICAL_ROOT_pos := by decide
  SLOTS_PER_HISTORICAL_ROOT_ge := by decide
  EPOCHS_PER_HISTORICAL_VECTOR_pos := by decide
  EFFECTIVE_BALANCE_INCREMENT_pos := by decide
  MAX_EFFECTIVE_BALANCE_ge := by decide
  MAX_EFFECTIVE_BALANCE_lt := by decide
  HYSTERESIS_QUOTIENT_dvd := by decide
  HYSTERESIS_UPWARD_MULTIPLIER_ge := by decide
  MAX_SEED_LOOKAHEAD_gt := by decide
  MAX_PROPOSER_SLASHINGS_pos := by decide
  MAX_VOLUNTARY_EXITS_pos := by decide
  SYNC_COMMITTEE_SIZE_pos := by decide

/-- `presets/minimal`. -/
@[reducible] def minimal : Preset where
  SLOTS_PER_EPOCH := 8
  MIN_ATTESTATION_INCLUSION_DELAY := 1
  MIN_SEED_LOOKAHEAD := 1
  MAX_SEED_LOOKAHEAD := 4
  SAFE_SLOTS_TO_UPDATE_JUSTIFIED := 2
  EPOCHS_PER_ETH1_VOTING_PERIOD := 4
  SLOTS_PER_HISTORICAL_ROOT := 64
  EPOCHS_PER_HISTORICAL_VECTOR := 64
  MIN_EPOCHS_TO_INACTIVITY_PENALTY := 4
  EPOCHS_PER_SLASHINGS_VECTOR := 64
  EFFECTIVE_BALANCE_INCREMENT := 1000000000
  MAX_EFFECTIVE_BALANCE := 32000000000
  HYSTERESIS_QUOTIENT := 4
  HYSTERESIS_DOWNWARD_MULTIPLIER := 1
  HYSTERESIS_UPWARD_MULTIPLIER := 5
  BASE_REWARD_FACTOR := 64
  PROPOSER_REWARD_QUOTIENT := 8
  INACTIVITY_PENALTY_QUOTIENT := 33554432
  INACTIVITY_PENALTY_QUOTIENT_ALTAIR := 50331648
  INACTIVITY_PENALTY_QUOTIENT_BELLATRIX := 16777216
  WHISTLEBLOWER_REWARD_QUOTIENT := 512
  MIN_SLASHING_PENALTY_QUOTIENT := 64
  MIN_SLASHING_PENALTY_QUOTIENT_ALTAIR := 64
  MIN_SLASHING_PENALTY_QUOTIENT_BELLATRIX := 32
  PROPORTIONAL_SLASHING_MULTIPLIER := 2
  PROPORTIONAL_SLASHING_MULTIPLIER_ALTAIR := 2
  PROPORTIONAL_SLASHING_MULTIPLIER_BELLATRIX := 3
  MAX_COMMITTEES_PER_SLOT := 4
  TARGET_COMMITTEE_SIZE := 4
  SHUFFLE_ROUND_COUNT := 10
  MAX_VALIDATORS_PER_COMMITTEE := 2048
  MAX_PROPOSER_SLASHINGS := 16
  MAX_ATTESTER_SLASHINGS := 2
  MAX_ATTESTATIONS := 128
  MAX_DEPOSITS := 16
  MAX_VOLUNTARY_EXITS := 16
  SYNC_COMMITTEE_SIZE := 32
  MIN_SYNC_COMMITTEE_PARTICIPANTS := 1
  EPOCHS_PER_SYNC_COMMITTEE_PERIOD := 8
  SLOTS_PER_EPOCH_pos := by decide
  EPOCHS_PER_ETH1_VOTING_PERIOD_gt := by decide
  SLOTS_PER_HISTORICAL_ROOT_pos := by decide
  SLOTS_PER_HISTORICAL_ROOT_ge := by decide
  EPOCHS_PER_HISTORICAL_VECTOR_pos := by decide
  EFFECTIVE_BALANCE_INCREMENT_pos := by decide
  MAX_EFFECTIVE_BALANCE_ge := by decide
  MAX_EFFECTIVE_BALANCE_lt := by decide
  HYSTERESIS_QUOTIENT_dvd := by decide
  HYSTERESIS_UPWARD_MULTIPLIER_ge := by decide
  MAX_SEED_LOOKAHEAD_gt := by decide
  MAX_PROPOSER_SLASHINGS_pos := by decide
  MAX_VOLUNTARY_EXITS_pos := by decide
  SYNC_COMMITTEE_SIZE_pos := by decide

/-! ## Configuration -/

inductive ForkName where
  | phase0
  | altair
  | bellatrix
  deriving DecidableEq, Repr

/-- `IChainConfig`. -/
structure ChainConfig where
  GENESIS_FORK_VERSION : Version
  ALTAIR_FORK_VERSION : Version
  BELLATRIX_FORK_VERSION : Version
  TERMINAL_TOTAL_DIFFICULTY : Nat
  TERMINAL_BLOCK_HASH : Root
  TERMINAL_BLOCK_HASH_ACTIVATION_EPOCH : WithTop Nat
  ALTAIR_FORK_EPOCH : WithTop Nat
  BELLATRIX_FORK_EPOCH : WithTop Nat
  MIN_VALIDATOR_WITHDRAWABILITY_DELAY : Nat
  INACTIVITY_SCORE_BIAS : Nat
  INACTIVITY_SCORE_RECOVERY_RATE : Nat
  EJECTION_BALANCE : Nat
  SHARD_COMMITTEE_PERIOD : Nat
  MIN_PER_EPOCH_CHURN_LIMIT : Nat
  CHURN_LIMIT_QUOTIENT : Nat
  SECONDS_PER_SLOT : Nat
  SECONDS_PER_ETH1_BLOCK : Nat
  ETH1_FOLLOW_DISTANCE : Nat
  /-- A percentage. -/
  PROPOSER_SCORE_BOOST : Nat
  CHURN_LIMIT_QUOTIENT_pos : 0 < CHURN_LIMIT_QUOTIENT
  /-- An interval of a slot takes a second or more. -/
  INTERVALS_PER_SLOT_le : INTERVALS_PER_SLOT ≤ SECONDS_PER_SLOT

/-- `chainConfig/presets/mainnet.ts`. -/
def chainConfigMainnet : ChainConfig where
  GENESIS_FORK_VERSION := 0x00000000
  ALTAIR_FORK_VERSION := 0x01000000
  BELLATRIX_FORK_VERSION := 0x02000000
  TERMINAL_TOTAL_DIFFICULTY := 2 ^ 256 - 1
  TERMINAL_BLOCK_HASH := 0
  TERMINAL_BLOCK_HASH_ACTIVATION_EPOCH := ⊤
  ALTAIR_FORK_EPOCH := (74240 : Nat)
  BELLATRIX_FORK_EPOCH := ⊤
  MIN_VALIDATOR_WITHDRAWABILITY_DELAY := 256
  INACTIVITY_SCORE_BIAS := 4
  INACTIVITY_SCORE_RECOVERY_RATE := 16
  EJECTION_BALANCE := 16000000000
  SHARD_COMMITTEE_PERIOD := 256
  MIN_PER_EPOCH_CHURN_LIMIT := 4
  CHURN_LIMIT_QUOTIENT := 65536
  SECONDS_PER_SLOT := 12
  SECONDS_PER_ETH1_BLOCK := 14
  ETH1_FOLLOW_DISTANCE := 2048
  PROPOSER_SCORE_BOOST := 70
  CHURN_LIMIT_QUOTIENT_pos := by decide
  INTERVALS_PER_SLOT_le := by decide

/-- `chainConfig/presets/minimal.ts`. -/
def chainConfigMinimal : ChainConfig where
  GENESIS_FORK_VERSION := 0x00000001
  ALTAIR_FORK_VERSION := 0x01000001
  BELLATRIX_FORK_VERSION := 0x02000001
  TERMINAL_TOTAL_DIFFICULTY := 2 ^ 256 - 1
  TERMINAL_BLOCK_HASH := 0
  TERMINAL_BLOCK_HASH_ACTIVATION_EPOCH := ⊤
  ALTAIR_FORK_EPOCH := (74240 : Nat)
  BELLATRIX_FORK_EPOCH := ⊤
  MIN_VALIDATOR_WITHDRAWABILITY_DELAY := 256
  INACTIVITY_SCORE_BIAS := 4
  INACTIVITY_SCORE_RECOVERY_RATE := 16
  EJECTION_BALANCE := 16000000000
  SHARD_COMMITTEE_PERIOD := 64
  MIN_PER_EPOCH_CHURN_LIMIT := 4
  CHURN_LIMIT_QUOTIENT := 32
  SECONDS_PER_SLOT := 6
  SECONDS_PER_ETH1_BLOCK := 14
  ETH1_FOLLOW_DISTANCE := 16
  PROPOSER_SCORE_BOOST := 70
  CHURN_LIMIT_QUOTIENT_pos := by decide
  INTERVALS_PER_SLOT_le := by decide

end Lodestar

import Lodestar.StateTransition.PendingAttestations
import Lodestar.StateTransition.Stakes

/-!
# Rewards and penalties of phase0

`phase0/epoch/getAttestationDeltas.ts`: one pass over the statuses does the
spec's passes over the attestations.
-/

namespace Lodestar.StateTransition

open Std (TreeMap)
open Lodestar.Base

section

variable [Preset] {β : Type}

/-! ## The loop -/

namespace Phase0

structure IRewardPenaltyItem where
  baseReward : Nat
  proposerReward : Nat
  maxAttesterReward : Nat
  sourceCheckpointReward : Nat
  targetCheckpointReward : Nat
  headReward : Nat
  basePenalty : Nat
  finalityDelayPenalty : Nat
  deriving DecidableEq

/-- What the loop computes for a number of increments it has not met before. -/
def rewardPenaltyItem (state : CachedBeaconStatePhase0 β) (epochProcess : EpochProcess)
    (effectiveBalanceIncrement : Nat) : IRewardPenaltyItem :=
  let totalBalance := epochProcess.totalActiveStakeByIncrement
  let totalBalanceInGwei := totalBalance * EFFECTIVE_BALANCE_INCREMENT
  let stake := epochProcess.prevEpochUnslashedStake
  let balanceSqRoot := bigIntSqrt totalBalanceInGwei
  let finalityDelay := epochProcess.prevEpoch - state.finalizedCheckpoint.epoch
  let isInInactivityLeak := decide (MIN_EPOCHS_TO_INACTIVITY_PENALTY < finalityDelay)
  let effectiveBalance := effectiveBalanceIncrement * EFFECTIVE_BALANCE_INCREMENT
  let baseReward := effectiveBalance * BASE_REWARD_FACTOR / balanceSqRoot / BASE_REWARDS_PER_EPOCH
  let proposerReward := baseReward / PROPOSER_REWARD_QUOTIENT
  { baseReward
    proposerReward
    maxAttesterReward := baseReward - proposerReward
    sourceCheckpointReward :=
      if isInInactivityLeak then baseReward
      else baseReward * stake.sourceStakeByIncrement / totalBalance
    targetCheckpointReward :=
      if isInInactivityLeak then baseReward
      else baseReward * stake.targetStakeByIncrement / totalBalance
    headReward :=
      if isInInactivityLeak then baseReward
      else baseReward * stake.headStakeByIncrement / totalBalance
    basePenalty := baseReward * BASE_REWARDS_PER_EPOCH - proposerReward
    finalityDelayPenalty := effectiveBalance * finalityDelay / INACTIVITY_PENALTY_QUOTIENT }

/-- The variables the loop writes. -/
structure RewardsLoop where
  rewardPenaltyItemCache : TreeMap Nat IRewardPenaltyItem
  rewards : List Nat
  penalties : List Nat

end Phase0

namespace CachedBeaconStatePhase0

/-- `rewards[status.proposerIndex] += proposerReward`; at `-1` it writes no entry. -/
def proposerAdds (proposerIndex : Option Nat) (proposerReward : Nat) : List (Nat × Nat) :=
  match proposerIndex with
  | some proposerIndex => [(proposerIndex, proposerReward)]
  | none => []

/-- The body of the loop. -/
def attestationDeltasStep (state : CachedBeaconStatePhase0 β) (epochProcess : EpochProcess)
    (loop : Phase0.RewardsLoop) (statusAt : IAttesterStatus × Nat) : Phase0.RewardsLoop :=
  let (status, i) := statusAt
  let isInInactivityLeak := decide (MIN_EPOCHS_TO_INACTIVITY_PENALTY
    < epochProcess.prevEpoch - state.finalizedCheckpoint.epoch)
  let effectiveBalanceIncrement := state.epochCtx.effectiveBalanceIncrements.getD i 0
  let (item, rewardPenaltyItemCache) := memo (Phase0.rewardPenaltyItem state epochProcess)
    loop.rewardPenaltyItemCache effectiveBalanceIncrement
  let source := hasMarkers status.flags FLAG_PREV_SOURCE_ATTESTER_OR_UNSLASHED
  let target := hasMarkers status.flags FLAG_PREV_TARGET_ATTESTER_OR_UNSLASHED
  let head := hasMarkers status.flags FLAG_PREV_HEAD_ATTESTER_OR_UNSLASHED
  -- inclusion speed bonus
  let rewards :=
    if source then
      tally loop.rewards (proposerAdds status.proposerIndex item.proposerReward
        ++ [(i, item.maxAttesterReward / status.inclusionDelay)])
    else loop.rewards
  if hasMarkers status.flags FLAG_ELIGIBLE_ATTESTER then
    { rewardPenaltyItemCache
      rewards := tally rewards
        ((if source then [(i, item.sourceCheckpointReward)] else [])
          ++ (if target then [(i, item.targetCheckpointReward)] else [])
          ++ (if head then [(i, item.headReward)] else []))
      penalties := tally loop.penalties
        ((if source then [] else [(i, item.baseReward)])
          ++ (if target then [] else [(i, item.baseReward)])
          ++ (if head then [] else [(i, item.baseReward)])
          ++ (if isInInactivityLeak then
              [(i, item.basePenalty)] ++ (if target then [] else [(i, item.finalityDelayPenalty)])
            else [])) }
  else
    { rewardPenaltyItemCache, rewards, penalties := loop.penalties }

/-- The rewards and the penalties. -/
def getAttestationDeltas (state : CachedBeaconStatePhase0 β) (epochProcess : EpochProcess) :
    List Nat × List Nat :=
  let validatorCount := epochProcess.statuses.length
  let loop := epochProcess.statuses.zipIdx.foldl (attestationDeltasStep state epochProcess)
    { rewardPenaltyItemCache := ∅
      rewards := List.replicate validatorCount 0
      penalties := List.replicate validatorCount 0 }
  (loop.rewards, loop.penalties)

/-! ## What the loop adds -/

/-- What the status at `i` adds to the rewards for the inclusion. -/
def inclusionAdds (state : CachedBeaconStatePhase0 β) (epochProcess : EpochProcess)
    (statusAt : IAttesterStatus × Nat) : List (Nat × Nat) :=
  let (status, i) := statusAt
  let source := hasMarkers status.flags FLAG_PREV_SOURCE_ATTESTER_OR_UNSLASHED
  let item := Phase0.rewardPenaltyItem state epochProcess
    (state.epochCtx.effectiveBalanceIncrements.getD i 0)
  (if source then proposerAdds status.proposerIndex item.proposerReward else [])
    ++ (if source then [(i, item.maxAttesterReward / status.inclusionDelay)] else [])

/-- What the status at `i` adds to the rewards for the components. -/
def componentAdds (state : CachedBeaconStatePhase0 β) (epochProcess : EpochProcess)
    (statusAt : IAttesterStatus × Nat) : List (Nat × Nat) :=
  let (status, i) := statusAt
  let eligible := hasMarkers status.flags FLAG_ELIGIBLE_ATTESTER
  let item := Phase0.rewardPenaltyItem state epochProcess
    (state.epochCtx.effectiveBalanceIncrements.getD i 0)
  (if eligible && hasMarkers status.flags FLAG_PREV_SOURCE_ATTESTER_OR_UNSLASHED then
      [(i, item.sourceCheckpointReward)] else [])
    ++ (if eligible && hasMarkers status.flags FLAG_PREV_TARGET_ATTESTER_OR_UNSLASHED then
      [(i, item.targetCheckpointReward)] else [])
    ++ (if eligible && hasMarkers status.flags FLAG_PREV_HEAD_ATTESTER_OR_UNSLASHED then
      [(i, item.headReward)] else [])

/-- What the status at `i` adds to the penalties. -/
def penaltyAdds (state : CachedBeaconStatePhase0 β) (epochProcess : EpochProcess)
    (statusAt : IAttesterStatus × Nat) : List (Nat × Nat) :=
  let (status, i) := statusAt
  let eligible := hasMarkers status.flags FLAG_ELIGIBLE_ATTESTER
  let leak := decide (MIN_EPOCHS_TO_INACTIVITY_PENALTY
    < epochProcess.prevEpoch - state.finalizedCheckpoint.epoch)
  let target := hasMarkers status.flags FLAG_PREV_TARGET_ATTESTER_OR_UNSLASHED
  let item := Phase0.rewardPenaltyItem state epochProcess
    (state.epochCtx.effectiveBalanceIncrements.getD i 0)
  (if eligible && !hasMarkers status.flags FLAG_PREV_SOURCE_ATTESTER_OR_UNSLASHED then
      [(i, item.baseReward)] else [])
    ++ (if eligible && !target then [(i, item.baseReward)] else [])
    ++ (if eligible && !hasMarkers status.flags FLAG_PREV_HEAD_ATTESTER_OR_UNSLASHED then
      [(i, item.baseReward)] else [])
    ++ (if leak && eligible then [(i, item.basePenalty)] else [])
    ++ (if leak && eligible && !target then [(i, item.finalityDelayPenalty)] else [])

variable {state : CachedBeaconStatePhase0 β} {process : EpochProcess}

variable (state) in
/-- The table does not show: the body of the loop only performs the additions. -/
theorem attestationDeltasStep_eq {loop : Phase0.RewardsLoop}
    (hcache : Memoises (Phase0.rewardPenaltyItem state process) loop.rewardPenaltyItemCache)
    (statusAt : IAttesterStatus × Nat) :
    (state.attestationDeltasStep process loop statusAt).rewards
        = tally loop.rewards (state.inclusionAdds process statusAt
          ++ state.componentAdds process statusAt) ∧
    (state.attestationDeltasStep process loop statusAt).penalties
        = tally loop.penalties (state.penaltyAdds process statusAt) ∧
    Memoises (Phase0.rewardPenaltyItem state process)
      (state.attestationDeltasStep process loop statusAt).rewardPenaltyItemCache := by
  obtain ⟨status, i⟩ := statusAt
  unfold attestationDeltasStep inclusionAdds componentAdds penaltyAdds
  dsimp only
  rw [hcache.memo_fst]
  generalize state.epochCtx.effectiveBalanceIncrements.getD i 0 = increment
  have hcache' := hcache.memo_snd increment
  generalize decide (MIN_EPOCHS_TO_INACTIVITY_PENALTY
    < process.prevEpoch - state.finalizedCheckpoint.epoch) = leak
  cases hasMarkers status.flags FLAG_ELIGIBLE_ATTESTER <;>
    cases hasMarkers status.flags FLAG_PREV_SOURCE_ATTESTER_OR_UNSLASHED <;>
    cases hasMarkers status.flags FLAG_PREV_TARGET_ATTESTER_OR_UNSLASHED <;>
    cases hasMarkers status.flags FLAG_PREV_HEAD_ATTESTER_OR_UNSLASHED <;>
    cases leak <;> simp [tally_append, hcache']

variable (state) in
theorem foldl_attestationDeltasStep_eq (statuses : List (IAttesterStatus × Nat))
    (loop : Phase0.RewardsLoop)
    (hcache : Memoises (Phase0.rewardPenaltyItem state process) loop.rewardPenaltyItemCache) :
    (statuses.foldl (state.attestationDeltasStep process) loop).rewards
        = tally loop.rewards (statuses.flatMap fun statusAt =>
          state.inclusionAdds process statusAt ++ state.componentAdds process statusAt) ∧
    (statuses.foldl (state.attestationDeltasStep process) loop).penalties
        = tally loop.penalties (statuses.flatMap (state.penaltyAdds process)) := by
  let inv (loop : Phase0.RewardsLoop) : Prop :=
    Memoises (Phase0.rewardPenaltyItem state process) loop.rewardPenaltyItemCache
  refine ⟨foldl_tally inv (·.rewards) (fun loop statusAt h => ?_) statuses hcache,
    foldl_tally inv (·.penalties) (fun loop statusAt h => ?_) statuses hcache⟩
  · obtain ⟨hrewards, -, h'⟩ := attestationDeltasStep_eq state h statusAt
    exact ⟨hrewards, h'⟩
  · obtain ⟨-, hpenalties, h'⟩ := attestationDeltasStep_eq state h statusAt
    exact ⟨hpenalties, h'⟩

theorem length_getAttestationDeltas (state : CachedBeaconStatePhase0 β) (process : EpochProcess) :
    (state.getAttestationDeltas process).1.length = process.statuses.length ∧
    (state.getAttestationDeltas process).2.length = process.statuses.length := by
  obtain ⟨hrewards, hpenalties⟩ := foldl_attestationDeltasStep_eq state process.statuses.zipIdx
    ⟨∅, List.replicate process.statuses.length 0, List.replicate process.statuses.length 0⟩
    memoises_empty
  unfold getAttestationDeltas
  dsimp only
  rw [hrewards, hpenalties, length_tally, length_tally, List.length_replicate]
  exact ⟨rfl, rfl⟩

/-! ## Where the additions are -/

theorem totalAt_componentAdds_ne (status : IAttesterStatus) {i j : Nat} (h : i ≠ j) :
    totalAt (state.componentAdds process (status, i)) j = 0 := by
  unfold componentAdds
  simp only [totalAt_append, totalAt_ite]
  simp [h]

theorem totalAt_penaltyAdds_ne (status : IAttesterStatus) {i j : Nat} (h : i ≠ j) :
    totalAt (state.penaltyAdds process (status, i)) j = 0 := by
  unfold penaltyAdds
  simp only [totalAt_append, totalAt_ite]
  simp [h]

theorem getAttestationDeltas_getElem? {status : IAttesterStatus} {i : Nat}
    (hs : process.statuses[i]? = some status) :
    (state.getAttestationDeltas process).1[i]?
        = some (totalAt (state.componentAdds process (status, i)) i
          + (process.statuses.zipIdx.map fun statusAt =>
            totalAt (state.inclusionAdds process statusAt) i).sum) ∧
    (state.getAttestationDeltas process).2[i]?
        = some (totalAt (state.penaltyAdds process (status, i)) i) := by
  have hi : i < process.statuses.length := (List.getElem?_eq_some_iff.mp hs).1
  obtain ⟨hrewards, hpenalties⟩ := foldl_attestationDeltasStep_eq state process.statuses.zipIdx
    ⟨∅, List.replicate process.statuses.length 0, List.replicate process.statuses.length 0⟩
    memoises_empty
  have hcomponents := sum_map_zipIdx_eq (f := fun statusAt =>
    totalAt (state.componentAdds process statusAt) i) hs
    fun status _ hne => totalAt_componentAdds_ne status hne
  have hpenalty := sum_map_zipIdx_eq (f := fun statusAt =>
    totalAt (state.penaltyAdds process statusAt) i) hs
    fun status _ hne => totalAt_penaltyAdds_ne status hne
  unfold getAttestationDeltas
  dsimp only
  rw [hrewards, hpenalties, getElem?_tally_replicate hi, getElem?_tally_replicate hi,
    totalAt_flatMap, totalAt_flatMap, hpenalty]
  simp only [totalAt_append]
  rw [List.sum_map_add, hcomponents, Nat.add_comm]
  exact ⟨rfl, trivial⟩

end CachedBeaconStatePhase0

/-! ## Stakes -/

variable {state : CachedBeaconStatePhase0 β} {process : EpochProcess}

theorem CacheAgrees.stake_phase0 (hagree : CacheAgrees state.toCachedBeaconState)
    (h : state.beforeProcessEpoch = .ok process) (component : Spec.Component) :
    stakeWithMarkers (1 <<< component.index ||| FLAG_UNSLASHED) process.statuses
        (effectiveBalancesByIncrements state.validators)
      = Spec.getTotalBalance state.validators
          (Spec.getUnslashedAttestingIndices state.toCachedBeaconStateAllForks
            (Spec.matchingAttestations state component)) / EFFECTIVE_BALANCE_INCREMENT := by
  have hlen := length_statuses_phase0 h
  refine (Nat.div_eq_of_eq_mul_left Preset.EFFECTIVE_BALANCE_INCREMENT_pos ?_).symm
  rw [hagree.stakeWithMarkers_eq hlen]
  unfold Spec.getUnslashedAttestingIndices
  congr 1
  refine List.filter_congr fun i hi => ?_
  have hs := List.getElem?_eq_getElem (hlen ▸ List.mem_range.mp hi)
  rw [hs, Option.any_some]
  exact (hagree.hasMarkers_attesting h hs component).symm

/-- The reward an attester with the component gets when eligible. -/
def componentReward (state : CachedBeaconStatePhase0 β) (component : Spec.Component) (i : Nat) :
    Nat :=
  let currentEpoch := computeEpochAtSlot state.slot
  let baseReward := Spec.getBaseRewardPhase0 state.validators currentEpoch i
  if Spec.isInInactivityLeak (currentEpoch - 1) state.finalizedCheckpoint.epoch then baseReward
  else baseReward
      * (Spec.getTotalBalance state.validators
          (Spec.getUnslashedAttestingIndices state.toCachedBeaconStateAllForks
            (Spec.matchingAttestations state component)) / EFFECTIVE_BALANCE_INCREMENT)
    / (Spec.getTotalActiveBalance state.validators currentEpoch / EFFECTIVE_BALANCE_INCREMENT)

theorem CacheAgrees.rewardPenaltyItem_eq (hagree : CacheAgrees state.toCachedBeaconState)
    (h : state.beforeProcessEpoch = .ok process) {i : Nat} (hi : i < state.validators.length) :
    Phase0.rewardPenaltyItem state process (state.epochCtx.effectiveBalanceIncrements.getD i 0) =
      let currentEpoch := computeEpochAtSlot state.slot
      let baseReward := Spec.getBaseRewardPhase0 state.validators currentEpoch i
      let proposerReward := Spec.getProposerReward state.validators currentEpoch i
      { baseReward
        proposerReward
        maxAttesterReward := baseReward - proposerReward
        sourceCheckpointReward := componentReward state .source i
        targetCheckpointReward := componentReward state .target i
        headReward := componentReward state .head i
        basePenalty := baseReward * BASE_REWARDS_PER_EPOCH - proposerReward
        finalityDelayPenalty := Spec.getEffectiveBalance state.validators i
          * (currentEpoch - 1 - state.finalizedCheckpoint.epoch) / INACTIVITY_PENALTY_QUOTIENT } := by
  obtain ⟨-, hprev, -, -, -, hstake⟩ := beforeProcessEpoch_ok h
  have htotal := hagree.totalActiveStake_eq h rfl rfl
  have hbase : state.epochCtx.effectiveBalanceIncrements.getD i 0 * EFFECTIVE_BALANCE_INCREMENT
        * BASE_REWARD_FACTOR
        / bigIntSqrt (process.totalActiveStakeByIncrement * EFFECTIVE_BALANCE_INCREMENT)
        / BASE_REWARDS_PER_EPOCH
      = Spec.getBaseRewardPhase0 state.validators (computeEpochAtSlot state.slot) i := by
    rw [hagree.increments_eq hi, hagree.increments_mul, bigIntSqrt_eq_sqrt, htotal]
    rfl
  have hactive : process.totalActiveStakeByIncrement
      = Spec.getTotalActiveBalance state.validators (computeEpochAtSlot state.slot)
        / EFFECTIVE_BALANCE_INCREMENT := by
    rw [← htotal, Nat.mul_div_cancel _ Preset.EFFECTIVE_BALANCE_INCREMENT_pos]
  have hreward : ∀ component, componentReward state component i =
      if Spec.isInInactivityLeak (computeEpochAtSlot state.slot - 1)
          state.finalizedCheckpoint.epoch then
        Spec.getBaseRewardPhase0 state.validators (computeEpochAtSlot state.slot) i
      else Spec.getBaseRewardPhase0 state.validators (computeEpochAtSlot state.slot) i
          * stakeWithMarkers (1 <<< component.index ||| FLAG_UNSLASHED) process.statuses
            (effectiveBalancesByIncrements state.validators)
        / process.totalActiveStakeByIncrement := by
    intro component
    unfold componentReward
    dsimp only
    rw [hagree.stake_phase0 h component, hactive]
  unfold Phase0.rewardPenaltyItem
  dsimp only
  rw [hbase, hprev, hagree.previousEpoch, hstake, hagree.increments_eq hi, hagree.increments_mul]
  rw [hreward .source, hreward .target, hreward .head]
  rfl

/-! ## The spec's deltas -/

omit [Preset] in
theorem totalAt_proposerAdds (proposerIndex : Option Nat) (proposerReward j : Nat) :
    totalAt (CachedBeaconStatePhase0.proposerAdds proposerIndex proposerReward) j
      = if proposerIndex = some j then proposerReward else 0 := by
  unfold CachedBeaconStatePhase0.proposerAdds
  cases proposerIndex with
  | none => rfl
  | some proposerIndex => simp [totalAt_singleton]

variable (state) in
theorem matchingAttestations_source :
    Spec.matchingAttestations state .source = state.previousEpochAttestations :=
  List.filter_eq_self.mpr fun _ _ => rfl

theorem inclusionAttestation_isSome {i : Nat} (h : Spec.isUnslashedAttesting
      state.toCachedBeaconStateAllForks state.previousEpochAttestations i = true) :
    ∃ att, Spec.inclusionAttestation state i = some att := by
  unfold Spec.isUnslashedAttesting at h
  simp only [Bool.and_eq_true, List.any_eq_true] at h
  obtain ⟨-, ⟨att, hmem, hi⟩, -⟩ := h
  unfold Spec.inclusionAttestation
  cases hmin : (state.previousEpochAttestations.filter fun att => decide
      (i ∈ Spec.getAttestingIndices state.toCachedBeaconStateAllForks att)).argmin
      (·.inclusionDelay) with
  | some att => exact ⟨att, rfl⟩
  | none =>
    rw [List.argmin_eq_none] at hmin
    exact absurd hi (List.filter_eq_nil_iff.mp hmin att hmem)

theorem CacheAgrees.inclusionAdds_eq (hagree : CacheAgrees state.toCachedBeaconState)
    (h : state.beforeProcessEpoch = .ok process) {status : IAttesterStatus} {i : Nat}
    (hs : process.statuses[i]? = some status) (j : Nat) :
    totalAt (state.inclusionAdds process (status, i)) j
      = Spec.getInclusionDelayRewardFor state i j := by
  have hi : i < state.validators.length :=
    length_statuses_phase0 h ▸ (List.getElem?_eq_some_iff.mp hs).1
  have hepoch : state.epochCtx.currentShuffling.epoch ≠ state.epochCtx.previousShuffling.epoch := by
    have hpos := hagree.epoch_pos
    rw [hagree.currentEpoch, hagree.previousEpoch]
    omega
  have hsource : hasMarkers status.flags FLAG_PREV_SOURCE_ATTESTER_OR_UNSLASHED
      = Spec.isUnslashedAttesting state.toCachedBeaconStateAllForks
        state.previousEpochAttestations i := by
    have hmarkers := hagree.hasMarkers_attesting h hs .source
    rwa [matchingAttestations_source] at hmarkers
  obtain ⟨hproposer, hdelay⟩ := inclusion_statuses_phase0 h hepoch hs
  unfold CachedBeaconStatePhase0.inclusionAdds Spec.getInclusionDelayRewardFor
  dsimp only
  rw [hsource, hagree.rewardPenaltyItem_eq h hi]
  cases hattesting : Spec.isUnslashedAttesting state.toCachedBeaconStateAllForks
      state.previousEpochAttestations i with
  | false => rfl
  | true =>
    obtain ⟨att, hatt⟩ := inclusionAttestation_isSome hattesting
    rw [if_pos rfl, if_pos rfl, if_pos rfl, totalAt_append, totalAt_proposerAdds, hproposer, hatt,
      hdelay att hatt, totalAt_singleton]
    simp

theorem CacheAgrees.componentAdds_eq (hagree : CacheAgrees state.toCachedBeaconState)
    (h : state.beforeProcessEpoch = .ok process) {status : IAttesterStatus} {i : Nat}
    (hs : process.statuses[i]? = some status) :
    totalAt (state.componentAdds process (status, i)) i
      = Spec.getComponentReward state .source i + Spec.getComponentReward state .target i
        + Spec.getComponentReward state .head i := by
  have hi : i < state.validators.length :=
    length_statuses_phase0 h ▸ (List.getElem?_eq_some_iff.mp hs).1
  have hreward : ∀ component, Spec.getComponentReward state component i =
      if hasMarkers status.flags FLAG_ELIGIBLE_ATTESTER
          && hasMarkers status.flags (1 <<< component.index ||| FLAG_UNSLASHED) then
        componentReward state component i
      else 0 := by
    intro component
    rw [hagree.hasMarkers_eligible_phase0 h hs, hagree.hasMarkers_attesting h hs component]
    rfl
  unfold CachedBeaconStatePhase0.componentAdds
  simp only [totalAt_append, totalAt_ite]
  rw [hagree.rewardPenaltyItem_eq h hi, hreward .source, hreward .target, hreward .head]
  simp
  rfl

theorem CacheAgrees.penaltyAdds_eq (hagree : CacheAgrees state.toCachedBeaconState)
    (h : state.beforeProcessEpoch = .ok process) {status : IAttesterStatus} {i : Nat}
    (hs : process.statuses[i]? = some status) :
    totalAt (state.penaltyAdds process (status, i)) i
      = Spec.getComponentPenalty state .source i + Spec.getComponentPenalty state .target i
        + Spec.getComponentPenalty state .head i + Spec.getInactivityPenaltyPhase0 state i := by
  have hi : i < state.validators.length :=
    length_statuses_phase0 h ▸ (List.getElem?_eq_some_iff.mp hs).1
  obtain ⟨-, hprev, -⟩ := beforeProcessEpoch_ok h
  have heligible := hagree.hasMarkers_eligible_phase0 h hs
  have hpenalty : ∀ component, Spec.getComponentPenalty state component i =
      if hasMarkers status.flags FLAG_ELIGIBLE_ATTESTER
          && !hasMarkers status.flags (1 <<< component.index ||| FLAG_UNSLASHED) then
        Spec.getBaseRewardPhase0 state.validators (computeEpochAtSlot state.slot) i
      else 0 := by
    intro component
    rw [heligible, hagree.hasMarkers_attesting h hs component]
    rfl
  have hinactivity : Spec.getInactivityPenaltyPhase0 state i =
      let leak := Spec.isInInactivityLeak (computeEpochAtSlot state.slot - 1)
        state.finalizedCheckpoint.epoch
      let eligible := hasMarkers status.flags FLAG_ELIGIBLE_ATTESTER
      let target := hasMarkers status.flags (1 <<< Spec.Component.target.index ||| FLAG_UNSLASHED)
      (if leak && eligible then
          Spec.getBaseRewardPhase0 state.validators (computeEpochAtSlot state.slot) i
              * BASE_REWARDS_PER_EPOCH
            - Spec.getProposerReward state.validators (computeEpochAtSlot state.slot) i
        else 0)
        + (if leak && eligible && !target then
          Spec.getEffectiveBalance state.validators i
            * (computeEpochAtSlot state.slot - 1 - state.finalizedCheckpoint.epoch)
            / INACTIVITY_PENALTY_QUOTIENT
        else 0) := by
    rw [heligible, hagree.hasMarkers_attesting h hs .target]
    unfold Spec.getInactivityPenaltyPhase0
    dsimp only
    rw [Nat.mul_comm BASE_REWARDS_PER_EPOCH]
    cases Spec.isInInactivityLeak (computeEpochAtSlot state.slot - 1)
        state.finalizedCheckpoint.epoch
      && Spec.isEligible state.validators (computeEpochAtSlot state.slot - 1) i <;>
      cases Spec.isUnslashedAttesting state.toCachedBeaconStateAllForks
        (Spec.matchingAttestations state .target) i <;> rfl
  unfold CachedBeaconStatePhase0.penaltyAdds
  simp only [totalAt_append, totalAt_ite, decide_true, Bool.and_true]
  rw [hagree.rewardPenaltyItem_eq h hi, hpenalty .source, hpenalty .target, hpenalty .head,
    hinactivity, hprev, hagree.previousEpoch, ← Nat.add_assoc]
  rfl

/-- In every phase0 state after genesis whose cache agrees with its registry, each reward is the
sum of the spec's source, target, head and inclusion delay rewards, and each penalty that of the
spec's source, target, head and inactivity penalties. -/
theorem getAttestationDeltas_eq_spec (h : state.beforeProcessEpoch = .ok process)
    (hagree : CacheAgrees state.toCachedBeaconState) :
    (state.getAttestationDeltas process).1
        = (List.range state.validators.length).map (fun i =>
          Spec.getComponentReward state .source i + Spec.getComponentReward state .target i
            + Spec.getComponentReward state .head i + Spec.getInclusionDelayReward state i) ∧
    (state.getAttestationDeltas process).2
        = (List.range state.validators.length).map (fun i =>
          Spec.getComponentPenalty state .source i + Spec.getComponentPenalty state .target i
            + Spec.getComponentPenalty state .head i
            + Spec.getInactivityPenaltyPhase0 state i) := by
  have hlen := length_statuses_phase0 h
  obtain ⟨hlen₁, hlen₂⟩ := state.length_getAttestationDeltas process
  rw [hlen] at hlen₁ hlen₂
  refine ⟨eq_map_range hlen₁ fun i hi => ?_, eq_map_range hlen₂ fun i hi => ?_⟩
  · have hs := List.getElem?_eq_getElem (hlen ▸ hi)
    rw [(CachedBeaconStatePhase0.getAttestationDeltas_getElem? hs).1, hagree.componentAdds_eq h hs,
      sum_map_zipIdx fun attester _ hattester => hagree.inclusionAdds_eq h hattester i, hlen]
    rfl
  · have hs := List.getElem?_eq_getElem (hlen ▸ hi)
    rw [(CachedBeaconStatePhase0.getAttestationDeltas_getElem? hs).2, hagree.penaltyAdds_eq h hs]

end

/-! ## Overlapping attestations -/

local instance attestedPreset : Preset := minimal

/-- A validator active from genesis on. -/
def attestingValidator (slashed : Bool) : Validator where
  pubkey := 0
  withdrawalCredentials := 0
  effectiveBalance := 32000000000
  slashed
  activationEligibilityEpoch := 0
  activationEpoch := 0
  exitEpoch := ⊤
  withdrawableEpoch := ⊤

/-- Validators 0 and 1 attest in slot 16, validators 2 and 3 in slot 17. -/
def attestation (slot : Nat) (bits : List Bool) (head target : Root) (delay proposer : Nat) :
    PendingAttestation where
  aggregationBits := bits
  data := { slot, index := 0, beaconBlockRoot := head, source := ⟨1, 0xa1⟩, target := ⟨2, target⟩ }
  inclusionDelay := delay
  proposerIndex := proposer

/-- The last slot of epoch 3. Validator 0 is in three attestations, two of them with the smallest
delay; validator 3 is slashed. -/
def attestedState : CachedBeaconStatePhase0 (List Nat) where
  config := chainConfigMinimal
  slot := 31
  validators := [attestingValidator false, attestingValidator false, attestingValidator false,
    attestingValidator true]
  balanceList := []
  slashings := []
  finalizedCheckpoint := ⟨1, 0xa1⟩
  inactivityScores := []
  epochCtx :=
    { previousShuffling := ⟨2, [0, 1, 2, 3]⟩
      currentShuffling := ⟨3, [0, 1, 2, 3]⟩
      nextShuffling := ⟨4, [0, 1, 2, 3]⟩
      effectiveBalanceIncrements := [32, 32, 32, 32]
      totalActiveBalanceIncrements := 128
      churnLimit := 4
      exitQueueEpoch := 8
      exitQueueChurn := 0
      epoch := 3 }
  blockRoots := Vector.replicate 64 0xb0
  randaoMixes := Vector.replicate 64 0
  justificationBits := Vector.replicate 4 false
  previousJustifiedCheckpoint := ⟨1, 0xa1⟩
  currentJustifiedCheckpoint := ⟨2, 0xa2⟩
  epochCache :=
    { previousCommittees := ⟨[0, 1, 2, 3], [[[0, 1]], [[2, 3]]], 1⟩
      currentCommittees := ⟨[0, 1, 2, 3], [], 1⟩
      nextCommittees := ⟨[0, 1, 2, 3], [], 1⟩
      proposers := []
      syncParticipantReward := 0
      baseRewardPerIncrement := 0
      currentSyncCommitteeIndexed := none
      nextSyncCommitteeIndexed := none
      syncPeriod := 0 }
  previousEpochAttestations :=
    [attestation 16 [true, true] 0xb0 0xb0 2 2, attestation 16 [true, false] 0xc0 0xb0 1 3,
      attestation 16 [true, false] 0xb0 0xc0 1 1, attestation 17 [true, true] 0xc0 0xb0 3 0]
  currentEpochAttestations := []

/-- Validator 3 proposed the first of the attestations with the smallest delay. -/
theorem getAttestationDeltas_eq_spec_attestedState :
    ∃ process, attestedState.beforeProcessEpoch = .ok process ∧
      attestedState.getAttestationDeltas process
        = ([4293260, 3488274, 2742915, 178885], [0, 0, 1431087, 4293261]) := by
  have hrun : attestedState.beforeProcessEpoch.toOption.map EpochProcess.prevEpoch = some 2 := by
    decide +kernel
  obtain ⟨process, hprocess, -⟩ := exists_ok_of_map hrun
  have hagree : CacheAgrees attestedState.toCachedBeaconState :=
    { epoch_pos := by decide
      currentEpoch := by decide
      previousEpoch := by decide
      effectiveBalance := by
        intro i validator hv
        have hbalance : validator.effectiveBalance = 32000000000 := by
          have hmem : validator ∈ attestedState.validators := List.mem_of_getElem? hv
          simp only [attestedState, List.mem_cons, List.not_mem_nil, or_false] at hmem
          rcases hmem with rfl | rfl | rfl | rfl <;> rfl
        have hi : i < 4 := (List.getElem?_eq_some_iff.mp hv).1
        rw [hbalance]
        show 32000000000 = [32, 32, 32, 32].getD i 0 * 1000000000
        interval_cases i <;> rfl }
  have h := getAttestationDeltas_eq_spec hprocess hagree
  refine ⟨process, hprocess, Prod.ext (h.1.trans ?_) (h.2.trans ?_)⟩
  · decide +kernel
  · decide +kernel

end Lodestar.StateTransition

import Lodestar.Base.Tally
import Lodestar.StateTransition.Stakes

/-!
# Rewards and penalties of altair

`altair/epoch/getRewardsAndPenalties.ts`.
-/

namespace Lodestar.StateTransition

open Std (TreeMap)
open Lodestar.Base

section

variable [Preset] {β : Type}

/-! ## The loop -/

namespace Altair

structure IRewardPenaltyItem where
  baseReward : Nat
  timelySourceReward : Nat
  timelySourcePenalty : Nat
  timelyTargetReward : Nat
  timelyTargetPenalty : Nat
  timelyHeadReward : Nat
  deriving DecidableEq

/-- What the loop computes for a number of increments it has not met before. -/
def rewardPenaltyItem (process : EpochProcess) (effectiveBalanceIncrement : Nat) :
    IRewardPenaltyItem :=
  let activeIncrements := process.totalActiveStakeByIncrement
  let baseReward := effectiveBalanceIncrement * process.baseRewardPerIncrement
  let tsWeigh := PARTICIPATION_FLAG_WEIGHTS.getD TIMELY_SOURCE_FLAG_INDEX 0
  let ttWeigh := PARTICIPATION_FLAG_WEIGHTS.getD TIMELY_TARGET_FLAG_INDEX 0
  let thWeigh := PARTICIPATION_FLAG_WEIGHTS.getD TIMELY_HEAD_FLAG_INDEX 0
  let stake := process.prevEpochUnslashedStake
  let tsRewardNumerator := baseReward * tsWeigh * stake.sourceStakeByIncrement
  let ttRewardNumerator := baseReward * ttWeigh * stake.targetStakeByIncrement
  let thRewardNumerator := baseReward * thWeigh * stake.headStakeByIncrement
  { baseReward
    timelySourceReward := tsRewardNumerator / (activeIncrements * WEIGHT_DENOMINATOR)
    timelyTargetReward := ttRewardNumerator / (activeIncrements * WEIGHT_DENOMINATOR)
    timelyHeadReward := thRewardNumerator / (activeIncrements * WEIGHT_DENOMINATOR)
    timelySourcePenalty := baseReward * tsWeigh / WEIGHT_DENOMINATOR
    timelyTargetPenalty := baseReward * ttWeigh / WEIGHT_DENOMINATOR }

/-- The variables the loop writes. -/
structure RewardsLoop where
  rewardPenaltyItemCache : TreeMap Nat IRewardPenaltyItem
  rewards : List Nat
  penalties : List Nat

end Altair

/-- `isInInactivityLeak(state)`. -/
def isInInactivityLeak (state : CachedBeaconState β) : Bool :=
  decide (MIN_EPOCHS_TO_INACTIVITY_PENALTY
    < state.epochCtx.previousShuffling.epoch - state.finalizedCheckpoint.epoch)

namespace CachedBeaconStateAltair

def penaltyDenominator (state : CachedBeaconStateAltair β) : Nat :=
  let inactivityPenalityMultiplier :=
    if getForkName state.config state.slot = .altair then INACTIVITY_PENALTY_QUOTIENT_ALTAIR
    else INACTIVITY_PENALTY_QUOTIENT_BELLATRIX
  state.config.INACTIVITY_SCORE_BIAS * inactivityPenalityMultiplier

/-- The body of the loop. -/
def rewardsStep (state : CachedBeaconStateAltair β) (process : EpochProcess)
    (loop : Altair.RewardsLoop) (statusAt : IAttesterStatus × Nat) : Altair.RewardsLoop :=
  let (status, i) := statusAt
  if !hasMarkers status.flags FLAG_ELIGIBLE_ATTESTER then loop
  else
    let leak := isInInactivityLeak state.toCachedBeaconState
    let effectiveBalanceIncrement := state.epochCtx.effectiveBalanceIncrements.getD i 0
    let (item, rewardPenaltyItemCache) :=
      memo (Altair.rewardPenaltyItem process) loop.rewardPenaltyItemCache effectiveBalanceIncrement
    let source := hasMarkers status.flags FLAG_PREV_SOURCE_ATTESTER_OR_UNSLASHED
    let target := hasMarkers status.flags FLAG_PREV_TARGET_ATTESTER_OR_UNSLASHED
    let head := hasMarkers status.flags FLAG_PREV_HEAD_ATTESTER_OR_UNSLASHED
    let penaltyNumerator :=
      effectiveBalanceIncrement * EFFECTIVE_BALANCE_INCREMENT * state.inactivityScores.getD i 0
    { rewardPenaltyItemCache
      rewards := tally loop.rewards
        ((if source && !leak then [(i, item.timelySourceReward)] else [])
          ++ (if target && !leak then [(i, item.timelyTargetReward)] else [])
          ++ (if head && !leak then [(i, item.timelyHeadReward)] else []))
      penalties := tally loop.penalties
        ((if source then [] else [(i, item.timelySourcePenalty)])
          ++ (if target then [] else [(i, item.timelyTargetPenalty)])
          ++ (if target then [] else [(i, penaltyNumerator / state.penaltyDenominator)])) }

/-- The rewards and the penalties. -/
def getRewardsAndPenalties (state : CachedBeaconStateAltair β) (process : EpochProcess) :
    List Nat × List Nat :=
  let validatorCount := state.validators.length
  let loop := process.statuses.zipIdx.foldl (rewardsStep state process)
    { rewardPenaltyItemCache := ∅
      rewards := List.replicate validatorCount 0
      penalties := List.replicate validatorCount 0 }
  (loop.rewards, loop.penalties)

end CachedBeaconStateAltair

/-! ## The statuses -/

/-- The flags the previous epoch's participation adds to a status. -/
def previousFlags (state : CachedBeaconStateAltair β) (i : Nat) : Nat :=
  if Spec.isActive state.validators state.epochCtx.previousShuffling.epoch i then
    (state.previousEpochParticipation[i]?.map (·.toNat)).getD 0
  else 0

/-- The flags the current epoch's participation adds to a status. -/
def currentFlags (state : CachedBeaconStateAltair β) (i : Nat) : Nat :=
  if Spec.isActive state.validators state.epochCtx.currentShuffling.epoch i then
    (state.currentEpochParticipation[i]?.map (·.toNat)).getD 0 <<< 3
  else 0

variable {state₀ state : CachedBeaconStateAltair β} {process : EpochProcess}

omit [Preset] in
theorem getElem?_participationStatuses (previous current : List ParticipationFlags)
    (actives : List Bool) (statuses : List IAttesterStatus) (i : Nat) :
    (participationStatuses previous current actives statuses)[i]?.map (·.flags)
      = statuses[i]?.map fun status =>
        status.flags
          ||| (if actives[i]?.getD false then (previous[i]?.map (·.toNat)).getD 0 else 0)
          ||| (if status.active then (current[i]?.map (·.toNat)).getD 0 <<< 3 else 0) := by
  unfold participationStatuses
  dsimp only
  rw [List.getElem?_mapIdx, List.getElem?_mapIdx]
  generalize previous[i]? = p
  generalize current[i]? = c
  generalize actives[i]?.getD false = active
  cases statuses[i]? with
  | none => rfl
  | some status =>
    obtain ⟨flags, proposerIndex, inclusionDelay, activeNow⟩ := status
    cases p <;> cases c <;> cases active <;> cases activeNow <;> simp

theorem statuses_altair (h : state₀.beforeProcessEpoch = .ok process) (i : Nat) :
    process.statuses[i]?.map (·.flags) = state₀.validators[i]?.map fun validator =>
      (validatorStatus state₀.epochCtx.previousShuffling.epoch
          state₀.epochCtx.currentShuffling.epoch validator).flags
        ||| previousFlags state₀ i ||| currentFlags state₀ i := by
  obtain ⟨hstatuses, -⟩ := beforeProcessEpoch_ok h
  rw [← Except.ok.inj hstatuses, getElem?_participationStatuses, List.getElem?_map,
    List.getElem?_map]
  unfold previousFlags currentFlags Spec.isActive
  cases state₀.validators[i]? with
  | none => rfl
  | some validator => rfl

/-! ## Participation bytes -/

/-- No participation byte reaches the bits of a status that are not its own. -/
structure ParticipationFits (state : CachedBeaconStateAltair β) : Prop where
  previous : ∀ flags ∈ state.previousEpochParticipation, flags.toNat < 2 ^ 6
  current : ∀ flags ∈ state.currentEpochParticipation, flags.toNat < 2 ^ 3

theorem testBit_previousFlags (k i : Nat) :
    (previousFlags state i).testBit k
      = (Spec.isActive state.validators state.epochCtx.previousShuffling.epoch i
        && state.previousEpochParticipation[i]?.any (Spec.hasFlag · k)) := by
  unfold previousFlags
  cases Spec.isActive state.validators state.epochCtx.previousShuffling.epoch i with
  | false => exact Nat.zero_testBit k
  | true =>
    cases state.previousEpochParticipation[i]? with
    | none => exact Nat.zero_testBit k
    | some flags => rfl

theorem ParticipationFits.previousFlags_lt (h : ParticipationFits state) (i : Nat) :
    previousFlags state i < 2 ^ 6 := by
  unfold previousFlags
  split
  · cases hp : state.previousEpochParticipation[i]? with
    | none => exact Nat.two_pow_pos 6
    | some flags => exact h.previous flags (List.mem_of_getElem? hp)
  · exact Nat.two_pow_pos 6

theorem ParticipationFits.currentFlags_eq (h : ParticipationFits state) (i : Nat) :
    ∃ flags < 2 ^ 3, currentFlags state i = flags <<< 3 := by
  unfold currentFlags
  split
  · cases hc : state.currentEpochParticipation[i]? with
    | none => exact ⟨0, Nat.two_pow_pos 3, rfl⟩
    | some flags => exact ⟨flags.toNat, h.current flags (List.mem_of_getElem? hc), rfl⟩
  · exact ⟨0, Nat.two_pow_pos 3, rfl⟩

theorem ParticipationFits.testBit_currentFlags (h : ParticipationFits state) (i : Nat) {k : Nat}
    (hk : k < 3 ∨ 6 ≤ k) : (currentFlags state i).testBit k = false := by
  obtain ⟨flags, hlt, heq⟩ := h.currentFlags_eq i
  rw [heq, Nat.testBit_shiftLeft]
  rcases hk with hk | hk
  · rw [decide_eq_false (by omega), Bool.false_and]
  · rw [Nat.testBit_lt_two_pow (lt_of_lt_of_le hlt (Nat.pow_le_pow_right (by omega) (by omega))),
      Bool.and_false]

/-! ## Markers -/

theorem statuses_hasMarkers_high (h : state₀.beforeProcessEpoch = .ok process)
    (hfits : ParticipationFits state₀) (i : Nat) {k : Nat} (hk : 6 ≤ k) :
    (process.statuses[i]?.any fun status => hasMarkers status.flags (1 <<< k))
      = state₀.validators[i]?.any fun validator =>
        (validatorStatus state₀.epochCtx.previousShuffling.epoch
          state₀.epochCtx.currentShuffling.epoch validator).flags.testBit k := by
  have hstatus := statuses_altair h i
  have hp := Nat.testBit_lt_two_pow
    (lt_of_lt_of_le (hfits.previousFlags_lt i) (Nat.pow_le_pow_right (by omega) hk))
  have hc := hfits.testBit_currentFlags i (.inr hk)
  cases hs : process.statuses[i]? with
  | none =>
    rw [hs] at hstatus
    rw [Option.map_eq_none_iff.mp hstatus.symm]
    rfl
  | some status =>
    rw [hs] at hstatus
    obtain ⟨validator, hv, hflags⟩ := Option.map_eq_some_iff.mp hstatus.symm
    replace hflags : _ = status.flags := hflags
    rw [hv, Option.any_some, Option.any_some, hasMarkers_one_shiftLeft, ← hflags, Nat.testBit_or,
      Nat.testBit_or, hp, hc, Bool.or_false, Bool.or_false]

theorem statuses_hasMarkers_prev (h : state₀.beforeProcessEpoch = .ok process)
    (hfits : ParticipationFits state₀) (i : Nat) {k : Nat} (hk : k < 3) :
    (process.statuses[i]?.any fun status => hasMarkers status.flags (1 <<< k))
      = (Spec.isActive state₀.validators state₀.epochCtx.previousShuffling.epoch i
        && state₀.previousEpochParticipation[i]?.any (Spec.hasFlag · k)) := by
  have hstatus := statuses_altair h i
  have hc := hfits.testBit_currentFlags i (.inl hk)
  rw [← testBit_previousFlags]
  cases hs : process.statuses[i]? with
  | none =>
    rw [hs] at hstatus
    have hv := Option.map_eq_none_iff.mp hstatus.symm
    rw [testBit_previousFlags, Spec.isActive, hv]
    rfl
  | some status =>
    rw [hs] at hstatus
    obtain ⟨validator, -, hflags⟩ := Option.map_eq_some_iff.mp hstatus.symm
    replace hflags : _ = status.flags := hflags
    have hv := testBit_validatorStatus state₀.epochCtx.previousShuffling.epoch
      state₀.epochCtx.currentShuffling.epoch validator (by omega : k < 8)
    rw [decide_eq_false (by omega), decide_eq_false (by omega), Bool.false_and, Bool.false_and,
      Bool.false_or] at hv
    rw [Option.any_some, hasMarkers_one_shiftLeft, ← hflags, Nat.testBit_or, Nat.testBit_or, hv, hc,
      Bool.or_false, Bool.false_or]

/-- The steps between `beforeProcessEpoch` and the rewards leave what the rewards read of the
attesters. -/
structure SameAttesters (state₀ state : CachedBeaconStateAltair β) : Prop where
  validators : state.validators = state₀.validators
  epochCtx : state.epochCtx = state₀.epochCtx
  previousEpochParticipation : state.previousEpochParticipation = state₀.previousEpochParticipation

theorem SameAttesters.hasMarkers_eligible (hsame : SameAttesters state₀ state)
    (h : state₀.beforeProcessEpoch = .ok process) (hfits : ParticipationFits state₀)
    (hagree : CacheAgrees state.toCachedBeaconState) (i : Nat) :
    (process.statuses[i]?.any fun status => hasMarkers status.flags FLAG_ELIGIBLE_ATTESTER)
      = Spec.isEligible state.validators (computeEpochAtSlot state.slot - 1) i := by
  have hmarkers := statuses_hasMarkers_high h hfits i (by omega : 6 ≤ 7)
  unfold FLAG_ELIGIBLE_ATTESTER Spec.isEligible
  rw [hmarkers, ← hsame.validators, ← hsame.epochCtx, hagree.previousEpoch]
  congr 1
  funext validator
  rw [testBit_validatorStatus _ _ _ (by omega)]
  rfl

theorem SameAttesters.hasMarkers_participating (hsame : SameAttesters state₀ state)
    (h : state₀.beforeProcessEpoch = .ok process) (hfits : ParticipationFits state₀)
    (hagree : CacheAgrees state.toCachedBeaconState) (i : Nat) {k : Nat} (hk : k < 3) :
    (process.statuses[i]?.any fun status => hasMarkers status.flags (1 <<< k ||| FLAG_UNSLASHED))
      = Spec.isUnslashedParticipating state k (computeEpochAtSlot state.slot - 1) i := by
  have hprev := statuses_hasMarkers_prev h hfits i hk
  have hunslashed := statuses_hasMarkers_high h hfits i (Nat.le_refl 6)
  have hlen := statuses_altair h i
  unfold Spec.isUnslashedParticipating Spec.isSlashed
  rw [← hsame.validators, ← hsame.epochCtx, hagree.previousEpoch,
    ← hsame.previousEpochParticipation] at hprev
  rw [← hsame.validators] at hunslashed hlen
  cases hs : process.statuses[i]? with
  | none =>
    rw [hs] at hlen
    have hv := Option.map_eq_none_iff.mp hlen.symm
    rw [Spec.isActive, hv]
    rfl
  | some status =>
    rw [hs] at hprev hunslashed hlen
    obtain ⟨validator, hv, -⟩ := Option.map_eq_some_iff.mp hlen.symm
    rw [hv, Option.any_some, Option.any_some, testBit_validatorStatus _ _ _ (by omega)] at hunslashed
    have hunslashed : hasMarkers status.flags FLAG_UNSLASHED = !validator.slashed := by
      simpa [FLAG_UNSLASHED] using hunslashed
    rw [Option.any_some] at hprev
    rw [Option.any_some, hasMarkers_or, hprev, hunslashed, hv, Option.any_some, Bool.and_assoc]

/-! ## What the loop adds -/

namespace CachedBeaconStateAltair

/-- What the status at `i` adds to the rewards. -/
def rewardAdds (state : CachedBeaconStateAltair β) (process : EpochProcess)
    (statusAt : IAttesterStatus × Nat) : List (Nat × Nat) :=
  let (status, i) := statusAt
  let eligible := hasMarkers status.flags FLAG_ELIGIBLE_ATTESTER
  let leak := isInInactivityLeak state.toCachedBeaconState
  let item :=
    Altair.rewardPenaltyItem process (state.epochCtx.effectiveBalanceIncrements.getD i 0)
  (if eligible && (hasMarkers status.flags FLAG_PREV_SOURCE_ATTESTER_OR_UNSLASHED && !leak) then
      [(i, item.timelySourceReward)] else [])
    ++ (if eligible && (hasMarkers status.flags FLAG_PREV_TARGET_ATTESTER_OR_UNSLASHED && !leak) then
      [(i, item.timelyTargetReward)] else [])
    ++ (if eligible && (hasMarkers status.flags FLAG_PREV_HEAD_ATTESTER_OR_UNSLASHED && !leak) then
      [(i, item.timelyHeadReward)] else [])

/-- What the status at `i` adds to the penalties. -/
def penaltyAdds (state : CachedBeaconStateAltair β) (process : EpochProcess)
    (statusAt : IAttesterStatus × Nat) : List (Nat × Nat) :=
  let (status, i) := statusAt
  let eligible := hasMarkers status.flags FLAG_ELIGIBLE_ATTESTER
  let increment := state.epochCtx.effectiveBalanceIncrements.getD i 0
  let item := Altair.rewardPenaltyItem process increment
  (if eligible && !hasMarkers status.flags FLAG_PREV_SOURCE_ATTESTER_OR_UNSLASHED then
      [(i, item.timelySourcePenalty)] else [])
    ++ (if eligible && !hasMarkers status.flags FLAG_PREV_TARGET_ATTESTER_OR_UNSLASHED then
      [(i, item.timelyTargetPenalty)] else [])
    ++ (if eligible && !hasMarkers status.flags FLAG_PREV_TARGET_ATTESTER_OR_UNSLASHED then
      [(i, increment * EFFECTIVE_BALANCE_INCREMENT * state.inactivityScores.getD i 0
        / state.penaltyDenominator)] else [])

variable (state) in
/-- The table does not show: the body of the loop only performs the additions. -/
theorem rewardsStep_eq {loop : Altair.RewardsLoop}
    (hcache : Memoises (Altair.rewardPenaltyItem process) loop.rewardPenaltyItemCache)
    (statusAt : IAttesterStatus × Nat) :
    (state.rewardsStep process loop statusAt).rewards
        = tally loop.rewards (state.rewardAdds process statusAt) ∧
    (state.rewardsStep process loop statusAt).penalties
        = tally loop.penalties (state.penaltyAdds process statusAt) ∧
    Memoises (Altair.rewardPenaltyItem process)
      (state.rewardsStep process loop statusAt).rewardPenaltyItemCache := by
  obtain ⟨status, i⟩ := statusAt
  unfold rewardsStep rewardAdds penaltyAdds
  dsimp only
  rw [hcache.memo_fst]
  cases hasMarkers status.flags FLAG_ELIGIBLE_ATTESTER with
  | false => exact ⟨rfl, rfl, hcache⟩
  | true =>
    refine ⟨rfl, ?_, hcache.memo_snd _⟩
    cases hasMarkers status.flags FLAG_PREV_SOURCE_ATTESTER_OR_UNSLASHED <;>
      cases hasMarkers status.flags FLAG_PREV_TARGET_ATTESTER_OR_UNSLASHED <;> rfl

variable (state) in
theorem foldl_rewardsStep_eq (statuses : List (IAttesterStatus × Nat)) (loop : Altair.RewardsLoop)
    (hcache : Memoises (Altair.rewardPenaltyItem process) loop.rewardPenaltyItemCache) :
    (statuses.foldl (state.rewardsStep process) loop).rewards
        = tally loop.rewards (statuses.flatMap (state.rewardAdds process)) ∧
    (statuses.foldl (state.rewardsStep process) loop).penalties
        = tally loop.penalties (statuses.flatMap (state.penaltyAdds process)) := by
  let inv (loop : Altair.RewardsLoop) : Prop :=
    Memoises (Altair.rewardPenaltyItem process) loop.rewardPenaltyItemCache
  refine ⟨foldl_tally inv (·.rewards) (fun loop statusAt h => ?_) statuses hcache,
    foldl_tally inv (·.penalties) (fun loop statusAt h => ?_) statuses hcache⟩
  · obtain ⟨hrewards, -, h'⟩ := rewardsStep_eq state h statusAt
    exact ⟨hrewards, h'⟩
  · obtain ⟨-, hpenalties, h'⟩ := rewardsStep_eq state h statusAt
    exact ⟨hpenalties, h'⟩

theorem totalAt_rewardAdds_ne (status : IAttesterStatus) {i j : Nat} (h : i ≠ j) :
    totalAt (state.rewardAdds process (status, i)) j = 0 := by
  unfold rewardAdds
  simp only [totalAt_append, totalAt_ite]
  simp [h]

theorem totalAt_penaltyAdds_ne (status : IAttesterStatus) {i j : Nat} (h : i ≠ j) :
    totalAt (state.penaltyAdds process (status, i)) j = 0 := by
  unfold penaltyAdds
  simp only [totalAt_append, totalAt_ite]
  simp [h]

theorem totalAt_rewardAdds_self (status : IAttesterStatus) (i : Nat) :
    totalAt (state.rewardAdds process (status, i)) i =
      let eligible := hasMarkers status.flags FLAG_ELIGIBLE_ATTESTER
      let leak := isInInactivityLeak state.toCachedBeaconState
      let item :=
        Altair.rewardPenaltyItem process (state.epochCtx.effectiveBalanceIncrements.getD i 0)
      (if eligible && (hasMarkers status.flags FLAG_PREV_SOURCE_ATTESTER_OR_UNSLASHED && !leak) then
          item.timelySourceReward else 0)
        + (if eligible && (hasMarkers status.flags FLAG_PREV_TARGET_ATTESTER_OR_UNSLASHED
            && !leak) then item.timelyTargetReward else 0)
        + (if eligible && (hasMarkers status.flags FLAG_PREV_HEAD_ATTESTER_OR_UNSLASHED
            && !leak) then item.timelyHeadReward else 0) := by
  unfold rewardAdds
  simp only [totalAt_append, totalAt_ite]
  simp

theorem totalAt_penaltyAdds_self (status : IAttesterStatus) (i : Nat) :
    totalAt (state.penaltyAdds process (status, i)) i =
      let eligible := hasMarkers status.flags FLAG_ELIGIBLE_ATTESTER
      let increment := state.epochCtx.effectiveBalanceIncrements.getD i 0
      let item := Altair.rewardPenaltyItem process increment
      (if eligible && !hasMarkers status.flags FLAG_PREV_SOURCE_ATTESTER_OR_UNSLASHED then
          item.timelySourcePenalty else 0)
        + (if eligible && !hasMarkers status.flags FLAG_PREV_TARGET_ATTESTER_OR_UNSLASHED then
          item.timelyTargetPenalty else 0)
        + (if eligible && !hasMarkers status.flags FLAG_PREV_TARGET_ATTESTER_OR_UNSLASHED then
          increment * EFFECTIVE_BALANCE_INCREMENT * state.inactivityScores.getD i 0
            / state.penaltyDenominator else 0) := by
  unfold penaltyAdds
  simp only [totalAt_append, totalAt_ite]
  simp

theorem getRewardsAndPenalties_getElem? {status : IAttesterStatus} {i : Nat}
    (hs : process.statuses[i]? = some status) (hi : i < state.validators.length) :
    (state.getRewardsAndPenalties process).1[i]?
        = some (totalAt (state.rewardAdds process (status, i)) i) ∧
    (state.getRewardsAndPenalties process).2[i]?
        = some (totalAt (state.penaltyAdds process (status, i)) i) := by
  obtain ⟨hrewards, hpenalties⟩ := foldl_rewardsStep_eq state process.statuses.zipIdx
    ⟨∅, List.replicate state.validators.length 0, List.replicate state.validators.length 0⟩
    memoises_empty
  unfold getRewardsAndPenalties
  dsimp only
  rw [hrewards, hpenalties, getElem?_tally_replicate hi, getElem?_tally_replicate hi,
    totalAt_flatMap, totalAt_flatMap,
    sum_map_zipIdx_eq hs fun status _ hne => totalAt_rewardAdds_ne status hne,
    sum_map_zipIdx_eq hs fun status _ hne => totalAt_penaltyAdds_ne status hne]
  exact ⟨rfl, rfl⟩

theorem length_getRewardsAndPenalties (state : CachedBeaconStateAltair β) (process : EpochProcess) :
    (state.getRewardsAndPenalties process).1.length = state.validators.length ∧
    (state.getRewardsAndPenalties process).2.length = state.validators.length := by
  obtain ⟨hrewards, hpenalties⟩ := foldl_rewardsStep_eq state process.statuses.zipIdx
    ⟨∅, List.replicate state.validators.length 0, List.replicate state.validators.length 0⟩
    memoises_empty
  unfold getRewardsAndPenalties
  dsimp only
  rw [hrewards, hpenalties, length_tally, length_tally, List.length_replicate]
  exact ⟨rfl, rfl⟩

end CachedBeaconStateAltair

/-! ## Stakes -/

omit [Preset] in
theorem length_participationStatuses (previous current : List ParticipationFlags)
    (actives : List Bool) (statuses : List IAttesterStatus) :
    (participationStatuses previous current actives statuses).length = statuses.length := by
  unfold participationStatuses
  dsimp only
  rw [List.length_mapIdx, List.length_mapIdx]

theorem length_statuses_altair (h : state₀.beforeProcessEpoch = .ok process) :
    process.statuses.length = state₀.validators.length := by
  obtain ⟨hstatuses, -⟩ := beforeProcessEpoch_ok h
  rw [← Except.ok.inj hstatuses, length_participationStatuses, List.length_map]

theorem SameAttesters.stake_eq (hsame : SameAttesters state₀ state)
    (h : state₀.beforeProcessEpoch = .ok process) (hfits : ParticipationFits state₀)
    (hagree : CacheAgrees state.toCachedBeaconState) {k : Nat} (hk : k < 3) :
    stakeWithMarkers (1 <<< k ||| FLAG_UNSLASHED) process.statuses
        (effectiveBalancesByIncrements state.validators)
      = Spec.getTotalBalance state.validators (Spec.getUnslashedParticipatingIndices state k
          (computeEpochAtSlot state.slot - 1)) / EFFECTIVE_BALANCE_INCREMENT := by
  have hlen : process.statuses.length = state.validators.length := by
    rw [length_statuses_altair h, hsame.validators]
  refine (Nat.div_eq_of_eq_mul_left Preset.EFFECTIVE_BALANCE_INCREMENT_pos ?_).symm
  rw [hagree.stakeWithMarkers_eq hlen]
  unfold Spec.getUnslashedParticipatingIndices
  congr 2
  funext i
  exact (hsame.hasMarkers_participating h hfits hagree i hk).symm

theorem SameAttesters.baseReward_eq (hsame : SameAttesters state₀ state)
    (h : state₀.beforeProcessEpoch = .ok process)
    (hagree : CacheAgrees state.toCachedBeaconState) {i : Nat} (hi : i < state.validators.length) :
    state.epochCtx.effectiveBalanceIncrements.getD i 0 * process.baseRewardPerIncrement
      = Spec.getBaseReward state.validators (computeEpochAtSlot state.slot) i := by
  obtain ⟨-, -, -, -, hbase, -⟩ := beforeProcessEpoch_ok h
  unfold Spec.getBaseReward Spec.getBaseRewardPerIncrement
  rw [hagree.increments_eq hi, hbase, computeBaseRewardPerIncrement, bigIntSqrt_eq_sqrt,
    hagree.totalActiveStake_eq h hsame.validators hsame.epochCtx]

/-! ## The spec's rewards and penalties -/

theorem CacheAgrees.isInInactivityLeak_eq {state : CachedBeaconState β} (h : CacheAgrees state) :
    isInInactivityLeak state
      = Spec.isInInactivityLeak (computeEpochAtSlot state.slot - 1)
        state.finalizedCheckpoint.epoch := by
  unfold isInInactivityLeak Spec.isInInactivityLeak
  rw [h.previousEpoch]

theorem SameAttesters.flagIndexReward_eq (hsame : SameAttesters state₀ state)
    (h : state₀.beforeProcessEpoch = .ok process) (hfits : ParticipationFits state₀)
    (hagree : CacheAgrees state.toCachedBeaconState) {status : IAttesterStatus} {i : Nat}
    (hs : process.statuses[i]? = some status) (hi : i < state.validators.length) {k : Nat}
    (hk : k < 3) :
    (if hasMarkers status.flags FLAG_ELIGIBLE_ATTESTER
        && (hasMarkers status.flags (1 <<< k ||| FLAG_UNSLASHED)
          && !isInInactivityLeak state.toCachedBeaconState) then
      state.epochCtx.effectiveBalanceIncrements.getD i 0 * process.baseRewardPerIncrement
          * PARTICIPATION_FLAG_WEIGHTS.getD k 0
          * stakeWithMarkers (1 <<< k ||| FLAG_UNSLASHED) process.statuses
            (effectiveBalancesByIncrements state.validators)
        / (process.totalActiveStakeByIncrement * WEIGHT_DENOMINATOR)
      else 0) = Spec.getFlagIndexReward state k i := by
  have heligible := hsame.hasMarkers_eligible h hfits hagree i
  have hparticipating := hsame.hasMarkers_participating h hfits hagree i hk
  rw [hs, Option.any_some] at heligible hparticipating
  have hactive : process.totalActiveStakeByIncrement
      = Spec.getTotalActiveBalance state.validators (computeEpochAtSlot state.slot)
        / EFFECTIVE_BALANCE_INCREMENT := by
    rw [← hagree.totalActiveStake_eq h hsame.validators hsame.epochCtx,
      Nat.mul_div_cancel _ Preset.EFFECTIVE_BALANCE_INCREMENT_pos]
  unfold Spec.getFlagIndexReward
  rw [heligible, hparticipating, hagree.isInInactivityLeak_eq, hsame.baseReward_eq h hagree hi,
    hsame.stake_eq h hfits hagree hk, hactive]

theorem SameAttesters.flagIndexPenalty_eq (hsame : SameAttesters state₀ state)
    (h : state₀.beforeProcessEpoch = .ok process) (hfits : ParticipationFits state₀)
    (hagree : CacheAgrees state.toCachedBeaconState) {status : IAttesterStatus} {i : Nat}
    (hs : process.statuses[i]? = some status) (hi : i < state.validators.length) {k : Nat}
    (hk : k < TIMELY_HEAD_FLAG_INDEX) :
    (if hasMarkers status.flags FLAG_ELIGIBLE_ATTESTER
        && !hasMarkers status.flags (1 <<< k ||| FLAG_UNSLASHED) then
      state.epochCtx.effectiveBalanceIncrements.getD i 0 * process.baseRewardPerIncrement
          * PARTICIPATION_FLAG_WEIGHTS.getD k 0 / WEIGHT_DENOMINATOR
      else 0) = Spec.getFlagIndexPenalty state k i := by
  have hk3 : k < 3 := lt_trans hk (by decide)
  have heligible := hsame.hasMarkers_eligible h hfits hagree i
  have hparticipating := hsame.hasMarkers_participating h hfits hagree i hk3
  rw [hs, Option.any_some] at heligible hparticipating
  unfold Spec.getFlagIndexPenalty
  rw [heligible, hparticipating, hsame.baseReward_eq h hagree hi]
  dsimp only
  rw [decide_eq_true (Nat.ne_of_lt hk), Bool.and_true]

theorem SameAttesters.inactivityPenalty_eq (hsame : SameAttesters state₀ state)
    (h : state₀.beforeProcessEpoch = .ok process) (hfits : ParticipationFits state₀)
    (hagree : CacheAgrees state.toCachedBeaconState)
    (hfork : getForkName state.config state.slot = .altair) {status : IAttesterStatus} {i : Nat}
    (hs : process.statuses[i]? = some status) (hi : i < state.validators.length) :
    (if hasMarkers status.flags FLAG_ELIGIBLE_ATTESTER
        && !hasMarkers status.flags FLAG_PREV_TARGET_ATTESTER_OR_UNSLASHED then
      state.epochCtx.effectiveBalanceIncrements.getD i 0 * EFFECTIVE_BALANCE_INCREMENT
          * state.inactivityScores.getD i 0 / state.penaltyDenominator
      else 0) = Spec.getInactivityPenalty state i := by
  have heligible := hsame.hasMarkers_eligible h hfits hagree i
  have hparticipating := hsame.hasMarkers_participating h hfits hagree i
    (by decide : TIMELY_TARGET_FLAG_INDEX < 3)
  rw [hs, Option.any_some] at heligible hparticipating
  have hmarkers : hasMarkers status.flags FLAG_PREV_TARGET_ATTESTER_OR_UNSLASHED
      = Spec.isUnslashedParticipating state TIMELY_TARGET_FLAG_INDEX
        (computeEpochAtSlot state.slot - 1) i := hparticipating
  unfold Spec.getInactivityPenalty CachedBeaconStateAltair.penaltyDenominator
  rw [heligible, hmarkers, hagree.increments_eq hi, hagree.increments_mul, hfork, if_pos rfl]

/-- In every altair state after genesis whose cache agrees with its registry and whose
participation bytes hold flags only, each reward is the sum of the spec's rewards for the three
flags, and each penalty that of the spec's penalties for the flags and for inactivity. -/
theorem getRewardsAndPenalties_eq_spec (h : state₀.beforeProcessEpoch = .ok process)
    (hsame : SameAttesters state₀ state) (hagree : CacheAgrees state.toCachedBeaconState)
    (hfork : getForkName state.config state.slot = .altair) (hfits : ParticipationFits state₀) :
    (state.getRewardsAndPenalties process).1
        = (List.range state.validators.length).map (fun i =>
          Spec.getFlagIndexReward state TIMELY_SOURCE_FLAG_INDEX i
            + Spec.getFlagIndexReward state TIMELY_TARGET_FLAG_INDEX i
            + Spec.getFlagIndexReward state TIMELY_HEAD_FLAG_INDEX i) ∧
    (state.getRewardsAndPenalties process).2
        = (List.range state.validators.length).map (fun i =>
          Spec.getFlagIndexPenalty state TIMELY_SOURCE_FLAG_INDEX i
            + Spec.getFlagIndexPenalty state TIMELY_TARGET_FLAG_INDEX i
            + Spec.getFlagIndexPenalty state TIMELY_HEAD_FLAG_INDEX i
            + Spec.getInactivityPenalty state i) := by
  have hlen : process.statuses.length = state.validators.length := by
    rw [length_statuses_altair h, hsame.validators]
  obtain ⟨-, -, -, -, -, hstake⟩ := beforeProcessEpoch_ok h
  rw [← hsame.validators] at hstake
  obtain ⟨hlen₁, hlen₂⟩ := state.length_getRewardsAndPenalties process
  refine ⟨eq_map_range hlen₁ fun i hi => ?_, eq_map_range hlen₂ fun i hi => ?_⟩
  · have hs := List.getElem?_eq_getElem (hlen ▸ hi)
    rw [(CachedBeaconStateAltair.getRewardsAndPenalties_getElem? hs hi).1,
      ← hsame.flagIndexReward_eq h hfits hagree hs hi (by decide : TIMELY_SOURCE_FLAG_INDEX < 3),
      ← hsame.flagIndexReward_eq h hfits hagree hs hi (by decide : TIMELY_TARGET_FLAG_INDEX < 3),
      ← hsame.flagIndexReward_eq h hfits hagree hs hi (by decide : TIMELY_HEAD_FLAG_INDEX < 3),
      CachedBeaconStateAltair.totalAt_rewardAdds_self, Altair.rewardPenaltyItem, hstake]
    rfl
  · have hs := List.getElem?_eq_getElem (hlen ▸ hi)
    have hhead : Spec.getFlagIndexPenalty state TIMELY_HEAD_FLAG_INDEX i = 0 := by
      unfold Spec.getFlagIndexPenalty
      simp
    rw [(CachedBeaconStateAltair.getRewardsAndPenalties_getElem? hs hi).2,
      ← hsame.flagIndexPenalty_eq h hfits hagree hs hi
        (by decide : TIMELY_SOURCE_FLAG_INDEX < TIMELY_HEAD_FLAG_INDEX),
      ← hsame.flagIndexPenalty_eq h hfits hagree hs hi
        (by decide : TIMELY_TARGET_FLAG_INDEX < TIMELY_HEAD_FLAG_INDEX),
      ← hsame.inactivityPenalty_eq h hfits hagree hfork hs hi,
      CachedBeaconStateAltair.totalAt_penaltyAdds_self, hhead, Nat.add_zero]
    rfl

end

/-! ## Two validators, one of them slashed -/

local instance altairPreset : Preset := minimal

/-- Always altair. -/
def chainConfigAltair : ChainConfig :=
  { chainConfigMinimal with ALTAIR_FORK_EPOCH := 0 }

/-- A validator active from genesis on. -/
def stakedValidator (slashed : Bool) : Validator where
  pubkey := 0
  withdrawalCredentials := 0
  effectiveBalance := 32000000000
  slashed
  activationEligibilityEpoch := 0
  activationEpoch := 0
  exitEpoch := ⊤
  withdrawableEpoch := ⊤

/-- The last slot of epoch 3. The second validator is slashed. -/
def slashedState (participation : List ParticipationFlags) : CachedBeaconStateAltair (List Nat) where
  config := chainConfigAltair
  slot := 31
  validators := [stakedValidator false, stakedValidator true]
  balanceList := [32000000000, 32000000000]
  slashings := []
  finalizedCheckpoint := ⟨1, 0xa1⟩
  inactivityScores := [0, 3]
  epochCtx :=
    { previousShuffling := ⟨2, [0, 1]⟩
      currentShuffling := ⟨3, [0, 1]⟩
      nextShuffling := ⟨4, [0, 1]⟩
      effectiveBalanceIncrements := [32, 32]
      totalActiveBalanceIncrements := 64
      churnLimit := 4
      exitQueueEpoch := 8
      exitQueueChurn := 0
      epoch := 3 }
  blockRoots := Vector.replicate 64 0xb0
  randaoMixes := Vector.replicate 64 0
  justificationBits := Vector.replicate 4 false
  previousJustifiedCheckpoint := ⟨1, 0xa1⟩
  currentJustifiedCheckpoint := ⟨2, 0xa2⟩
  epochCache :=
    { previousCommittees := ⟨[0, 1], [], 1⟩
      currentCommittees := ⟨[0, 1], [], 1⟩
      nextCommittees := ⟨[0, 1], [], 1⟩
      proposers := []
      syncParticipantReward := 0
      baseRewardPerIncrement := 0
      currentSyncCommitteeIndexed := none
      nextSyncCommitteeIndexed := none
      syncPeriod := 0 }
  previousEpochParticipation := participation
  currentEpochParticipation := [0x07, 0x00]
  currentSyncCommittee := ⟨[], 0⟩
  nextSyncCommittee := ⟨[], 0⟩

theorem cacheAgrees_slashedState (participation : List ParticipationFlags) :
    CacheAgrees (slashedState participation).toCachedBeaconState where
  epoch_pos := (by decide : 0 < computeEpochAtSlot 31)
  currentEpoch := (by decide : 3 = computeEpochAtSlot 31)
  previousEpoch := (by decide : 2 = computeEpochAtSlot 31 - 1)
  effectiveBalance {i validator} hv := by
    have hmem : validator ∈ [stakedValidator false, stakedValidator true] :=
      List.mem_of_getElem? hv
    have hbalance : validator.effectiveBalance = 32000000000 := by
      rcases List.mem_pair.mp hmem with rfl | rfl <;> rfl
    have hi : i < 2 := (List.getElem?_eq_some_iff.mp hv).1
    rw [hbalance]
    show 32000000000 = [32, 32].getD i 0 * 1000000000
    interval_cases i <;> rfl

/-- Both attested in time, but only the first is paid. -/
theorem getRewardsAndPenalties_eq_spec_slashedState :
    ∃ process, (slashedState [0x07, 0x07]).beforeProcessEpoch = .ok process ∧
      (slashedState [0x07, 0x07]).getRewardsAndPenalties process
        = ([3415257, 0], [0, 5060116]) := by
  have hrun : (slashedState [0x07, 0x07]).beforeProcessEpoch.toOption.map EpochProcess.prevEpoch
      = some 2 := by decide +kernel
  obtain ⟨process, hprocess, -⟩ := exists_ok_of_map hrun
  have h := getRewardsAndPenalties_eq_spec hprocess ⟨rfl, rfl, rfl⟩
    (cacheAgrees_slashedState [0x07, 0x07]) (by decide) ⟨by decide, by decide⟩
  refine ⟨process, hprocess, Prod.ext (h.1.trans ?_) (h.2.trans ?_)⟩
  · decide +kernel
  · decide +kernel

/-- A byte with the bit of `FLAG_UNSLASHED` pays a slashed validator, whom the spec does not pay. -/
theorem getRewardsAndPenalties_unslashed_bit :
    CacheAgrees (slashedState [0x07, 0x42]).toCachedBeaconState ∧
      getForkName chainConfigAltair (slashedState [0x07, 0x42]).slot = .altair ∧
      Spec.getFlagIndexReward (slashedState [0x07, 0x42]) TIMELY_SOURCE_FLAG_INDEX 1
        + Spec.getFlagIndexReward (slashedState [0x07, 0x42]) TIMELY_TARGET_FLAG_INDEX 1
        + Spec.getFlagIndexReward (slashedState [0x07, 0x42]) TIMELY_HEAD_FLAG_INDEX 1 = 0 ∧
      ∃ process, (slashedState [0x07, 0x42]).beforeProcessEpoch = .ok process ∧
        ((slashedState [0x07, 0x42]).getRewardsAndPenalties process).1[1]? = some 3288766 := by
  have hrun : (slashedState [0x07, 0x42]).beforeProcessEpoch.toOption.map
      (slashedState [0x07, 0x42]).getRewardsAndPenalties
        = some ([5059640, 3288766], [0, 1770874]) := by decide +kernel
  obtain ⟨process, hprocess, hrewards⟩ := exists_ok_of_map hrun
  exact ⟨cacheAgrees_slashedState _, by decide, by decide +kernel, process, hprocess, by rw [hrewards]; rfl⟩

end Lodestar.StateTransition

import Lodestar.Base.ModifyAt
import Lodestar.Base.Double
import Lodestar.StateTransition.EpochProcess

/-!
# Effective balances and the rewards of the epoch cache

`allForks/epoch/processEffectiveBalanceUpdates.ts`, which also adds up the total
of the next epoch, and the rewards of `util/syncCommittee.ts`, which
`EpochContext` computes from a total it does not look at again.
-/

namespace Lodestar.StateTransition

open Lodestar.Base

variable [Preset]

/-! ## Rewards -/

/-- The rewards `EpochContext` keeps. -/
structure CachedRewards where
  syncParticipantReward : Number
  baseRewardPerIncrement : Number
  deriving DecidableEq

namespace CachedRewards

def computeBaseRewardPerIncrement (totalActiveStakeByIncrement : Nat) : Number :=
  .floorDiv (.nat (EFFECTIVE_BALANCE_INCREMENT * BASE_REWARD_FACTOR))
    (.nat (bigIntSqrt (totalActiveStakeByIncrement * EFFECTIVE_BALANCE_INCREMENT)))

def computeSyncParticipantReward (totalActiveBalanceIncrements : Nat) : Number :=
  let totalActiveBalance := totalActiveBalanceIncrements * EFFECTIVE_BALANCE_INCREMENT
  let baseRewardPerIncrement :=
    Number.floorDiv (.nat (EFFECTIVE_BALANCE_INCREMENT * BASE_REWARD_FACTOR))
      (.nat (bigIntSqrt totalActiveBalance))
  let totalBaseRewards := baseRewardPerIncrement.mul (.nat totalActiveBalanceIncrements)
  let maxParticipantRewards :=
    ((totalBaseRewards.mul (.nat SYNC_REWARD_WEIGHT)).floorDiv (.nat WEIGHT_DENOMINATOR)).floorDiv
      (.nat SLOTS_PER_EPOCH)
  maxParticipantRewards.floorDiv (.nat SYNC_COMMITTEE_SIZE)

/-- The two of a total. -/
def ofTotal (totalActiveBalanceIncrements : Nat) : CachedRewards where
  syncParticipantReward := computeSyncParticipantReward totalActiveBalanceIncrements
  baseRewardPerIncrement := computeBaseRewardPerIncrement totalActiveBalanceIncrements

theorem sqrt_total_pos {total : Nat} (h : 0 < total) :
    0 < bigIntSqrt (total * EFFECTIVE_BALANCE_INCREMENT) := by
  rw [bigIntSqrt_eq_sqrt]
  exact Nat.sqrt_pos.2 (Nat.mul_pos h Preset.EFFECTIVE_BALANCE_INCREMENT_pos)

theorem computeBaseRewardPerIncrement_of_pos {total : Nat} (h : 0 < total) :
    computeBaseRewardPerIncrement total = .nat (StateTransition.computeBaseRewardPerIncrement total) :=
  Number.floorDiv_nat _ (sqrt_total_pos h)

theorem ofTotal_of_pos {total : Nat} (h : 0 < total) :
    ∃ syncParticipantReward : Nat, ofTotal total =
      { syncParticipantReward := .nat syncParticipantReward
        baseRewardPerIncrement := .nat (StateTransition.computeBaseRewardPerIncrement total) } := by
  unfold ofTotal
  rw [computeBaseRewardPerIncrement_of_pos h]
  unfold computeSyncParticipantReward
  dsimp only
  rw [Number.floorDiv_nat _ (sqrt_total_pos h), Number.mul_nat, Number.mul_nat,
    Number.floorDiv_nat _ (by decide), Number.floorDiv_nat _ Preset.SLOTS_PER_EPOCH_pos,
    Number.floorDiv_nat _ Preset.SYNC_COMMITTEE_SIZE_pos]
  exact ⟨_, rfl⟩

end CachedRewards

/-! ## processEffectiveBalanceUpdates -/

def HYSTERESIS_INCREMENT : Nat := EFFECTIVE_BALANCE_INCREMENT / HYSTERESIS_QUOTIENT
def DOWNWARD_THRESHOLD : Nat := HYSTERESIS_INCREMENT * HYSTERESIS_DOWNWARD_MULTIPLIER
def UPWARD_THRESHOLD : Nat := HYSTERESIS_INCREMENT * HYSTERESIS_UPWARD_MULTIPLIER

/-- Too big, or too small. -/
def isMisplaced (effectiveBalance balance : Nat) : Bool :=
  decide (balance + DOWNWARD_THRESHOLD < effectiveBalance)
    || decide (effectiveBalance < MAX_EFFECTIVE_BALANCE)
      && decide (effectiveBalance + UPWARD_THRESHOLD < balance)

/-- The variables the loop writes. -/
structure EffectiveBalancesLoop where
  validators : List Validator
  effectiveBalanceIncrements : List Nat
  nextEpochTotalActiveBalanceByIncrement : Nat

/-- The body of the loop. -/
def updateEffectiveBalance (isActiveNextEpoch : List Bool) (loop : EffectiveBalancesLoop)
    (balanceAt : Nat × Nat) : EffectiveBalancesLoop :=
  let (balance, i) := balanceAt
  let effectiveBalanceIncrement := loop.effectiveBalanceIncrements.getD i 0
  let effectiveBalance := effectiveBalanceIncrement * EFFECTIVE_BALANCE_INCREMENT
  let (validators, effectiveBalanceIncrements, effectiveBalanceIncrement) :=
    if isMisplaced effectiveBalance balance then
      let effectiveBalance :=
        min (balance - balance % EFFECTIVE_BALANCE_INCREMENT) MAX_EFFECTIVE_BALANCE
      let effectiveBalanceIncrement := effectiveBalance / EFFECTIVE_BALANCE_INCREMENT
      (loop.validators.modify i fun validator => { validator with effectiveBalance },
        loop.effectiveBalanceIncrements.set i (effectiveBalanceIncrement % 2 ^ 8),
        effectiveBalanceIncrement)
    else (loop.validators, loop.effectiveBalanceIncrements, effectiveBalanceIncrement)
  { validators
    effectiveBalanceIncrements
    nextEpochTotalActiveBalanceByIncrement :=
      if isActiveNextEpoch.getD i false then
        loop.nextEpochTotalActiveBalanceByIncrement + effectiveBalanceIncrement
      else loop.nextEpochTotalActiveBalanceByIncrement }

def processEffectiveBalanceUpdates (state : CachedBeaconState (List Nat))
    (epochProcess : EpochProcess) : CachedBeaconState (List Nat) × EpochProcess :=
  -- only at genesis have the rewards not read the balances
  let balances := epochProcess.balances.getD state.balanceList
  let loop := balances.zipIdx.foldl (updateEffectiveBalance epochProcess.isActiveNextEpoch)
    { validators := state.validators
      effectiveBalanceIncrements := state.epochCtx.effectiveBalanceIncrements
      nextEpochTotalActiveBalanceByIncrement := 0 }
  ({ state with
      validators := loop.validators
      epochCtx := { state.epochCtx with
        effectiveBalanceIncrements := loop.effectiveBalanceIncrements } },
    { epochProcess with
      balances := some balances
      nextEpochTotalActiveBalanceByIncrement := loop.nextEpochTotalActiveBalanceByIncrement })

/-! ## One validator -/

/-- The effective balance of a validator as the cache keeps it. -/
def effectiveIncrements (validator : Validator) : Nat :=
  validator.effectiveBalance / EFFECTIVE_BALANCE_INCREMENT % 2 ^ 8

/-- A validator after the update. -/
def withEffectiveBalance (validator : Validator) (balance : Nat) : Validator :=
  if isMisplaced (effectiveIncrements validator * EFFECTIVE_BALANCE_INCREMENT) balance then
    { validator with
      effectiveBalance := min (balance - balance % EFFECTIVE_BALANCE_INCREMENT) MAX_EFFECTIVE_BALANCE }
  else validator

@[simp] theorem withEffectiveBalance_exitEpoch (validator : Validator) (balance : Nat) :
    (withEffectiveBalance validator balance).exitEpoch = validator.exitEpoch := by
  unfold withEffectiveBalance
  split <;> rfl

@[simp] theorem isActiveValidator_withEffectiveBalance (validator : Validator) (balance epoch : Nat) :
    isActiveValidator (withEffectiveBalance validator balance) epoch =
      isActiveValidator validator epoch := by
  unfold withEffectiveBalance
  split <;> rfl

/-- The increments of an effective balance that is set fit the byte they are kept in. -/
theorem increments_lt (balance : Nat) :
    min (balance - balance % EFFECTIVE_BALANCE_INCREMENT) MAX_EFFECTIVE_BALANCE
      / EFFECTIVE_BALANCE_INCREMENT < 2 ^ 8 :=
  (Nat.div_le_div_right (min_le_right _ _)).trans_lt Preset.MAX_EFFECTIVE_BALANCE_lt

/-- The balance leaves the validator with an increment, or gives it one. -/
def isFunded (validator : Validator) (balance : Nat) : Bool :=
  if effectiveIncrements validator = 0 then decide (UPWARD_THRESHOLD < balance)
  else decide (EFFECTIVE_BALANCE_INCREMENT ≤ balance)
    || decide (effectiveIncrements validator * EFFECTIVE_BALANCE_INCREMENT
      ≤ balance + DOWNWARD_THRESHOLD)

theorem le_UPWARD_THRESHOLD : EFFECTIVE_BALANCE_INCREMENT ≤ UPWARD_THRESHOLD := by
  unfold UPWARD_THRESHOLD HYSTERESIS_INCREMENT
  calc EFFECTIVE_BALANCE_INCREMENT
      = EFFECTIVE_BALANCE_INCREMENT / HYSTERESIS_QUOTIENT * HYSTERESIS_QUOTIENT :=
        (Nat.div_mul_cancel Preset.HYSTERESIS_QUOTIENT_dvd).symm
    _ ≤ EFFECTIVE_BALANCE_INCREMENT / HYSTERESIS_QUOTIENT * HYSTERESIS_UPWARD_MULTIPLIER :=
        Nat.mul_le_mul_left _ Preset.HYSTERESIS_UPWARD_MULTIPLIER_ge

theorem increments_pos_iff (balance : Nat) :
    0 < min (balance - balance % EFFECTIVE_BALANCE_INCREMENT) MAX_EFFECTIVE_BALANCE
      / EFFECTIVE_BALANCE_INCREMENT ↔ EFFECTIVE_BALANCE_INCREMENT ≤ balance := by
  have hpos : 0 < EFFECTIVE_BALANCE_INCREMENT := Preset.EFFECTIVE_BALANCE_INCREMENT_pos
  have hmax : EFFECTIVE_BALANCE_INCREMENT ≤ MAX_EFFECTIVE_BALANCE := Preset.MAX_EFFECTIVE_BALANCE_ge
  rw [Nat.div_pos_iff, le_min_iff]
  constructor
  · rintro ⟨-, hle, -⟩
    exact hle.trans (Nat.sub_le _ _)
  · intro hle
    refine ⟨hpos, ?_, hmax⟩
    have hwhole : balance - balance % EFFECTIVE_BALANCE_INCREMENT =
        EFFECTIVE_BALANCE_INCREMENT * (balance / EFFECTIVE_BALANCE_INCREMENT) := by
      have hdiv := Nat.div_add_mod balance EFFECTIVE_BALANCE_INCREMENT
      omega
    rw [hwhole]
    exact Nat.le_mul_of_pos_right _ (Nat.div_pos hle hpos)

theorem effectiveIncrements_pos_iff (validator : Validator) (balance : Nat) :
    0 < effectiveIncrements (withEffectiveBalance validator balance) ↔
      isFunded validator balance = true := by
  have hup := le_UPWARD_THRESHOLD
  have hmax : EFFECTIVE_BALANCE_INCREMENT ≤ MAX_EFFECTIVE_BALANCE := Preset.MAX_EFFECTIVE_BALANCE_ge
  have hpos : 0 < EFFECTIVE_BALANCE_INCREMENT := Preset.EFFECTIVE_BALANCE_INCREMENT_pos
  generalize hkept : effectiveIncrements validator = kept
  have hzero : kept = 0 → kept * EFFECTIVE_BALANCE_INCREMENT = 0 := by
    rintro rfl
    exact Nat.zero_mul _
  unfold withEffectiveBalance isFunded
  rw [hkept]
  by_cases hmisplaced : isMisplaced (kept * EFFECTIVE_BALANCE_INCREMENT) balance = true
  · rw [if_pos hmisplaced]
    have hnew := increments_pos_iff balance
    unfold effectiveIncrements
    dsimp only
    rw [Nat.mod_eq_of_lt (increments_lt balance), hnew]
    unfold isMisplaced at hmisplaced
    simp only [Bool.or_eq_true, Bool.and_eq_true, decide_eq_true_iff] at hmisplaced
    split
    next hnone =>
      have h0 := hzero hnone
      rw [decide_eq_true_iff]
      omega
    next hsome =>
      rw [Bool.or_eq_true, decide_eq_true_iff, decide_eq_true_iff]
      omega
  · rw [if_neg hmisplaced, hkept]
    unfold isMisplaced at hmisplaced
    simp only [Bool.or_eq_true, Bool.and_eq_true, decide_eq_true_iff] at hmisplaced
    split
    next hnone =>
      have h0 := hzero hnone
      rw [decide_eq_true_iff]
      omega
    next hsome =>
      rw [Bool.or_eq_true, decide_eq_true_iff, decide_eq_true_iff]
      omega

/-! ## The loop -/

section

variable {isActiveNextEpoch : List Bool} {loop : EffectiveBalancesLoop}

/-- The cache has the effective balance of each validator. -/
def IncrementsAgree (validators : List Validator) (effectiveBalanceIncrements : List Nat) : Prop :=
  ∀ (i : Nat) (validator : Validator), validators[i]? = some validator →
    effectiveBalanceIncrements[i]? = some (effectiveIncrements validator)

/-- The first `k` validators after the update. -/
def updatedBelow (k : Nat) (balances : List Nat) (validators : List Validator) : List Validator :=
  validators.mapIdx fun i validator =>
    if i < k then withEffectiveBalance validator (balances.getD i 0) else validator

/-- The increments of a validator that counts in the next epoch. -/
def nextIncrements (isActiveNextEpoch : List Bool) (validators : List Validator) (i : Nat) : Nat :=
  if isActiveNextEpoch.getD i false then (validators[i]?.map effectiveIncrements).getD 0 else 0

theorem effectiveIncrements_withEffectiveBalance (validator : Validator) (balance : Nat) :
    effectiveIncrements (withEffectiveBalance validator balance) =
      if isMisplaced (effectiveIncrements validator * EFFECTIVE_BALANCE_INCREMENT) balance then
        min (balance - balance % EFFECTIVE_BALANCE_INCREMENT) MAX_EFFECTIVE_BALANCE
          / EFFECTIVE_BALANCE_INCREMENT
      else effectiveIncrements validator := by
  unfold withEffectiveBalance
  split
  · exact Nat.mod_eq_of_lt (increments_lt balance)
  · rfl

theorem updateEffectiveBalance_eq {i : Nat} {balance : Nat} {validator : Validator}
    (hagree : IncrementsAgree loop.validators loop.effectiveBalanceIncrements)
    (hvalidator : loop.validators[i]? = some validator) :
    updateEffectiveBalance isActiveNextEpoch loop (balance, i) =
      { validators := loop.validators.set i (withEffectiveBalance validator balance)
        effectiveBalanceIncrements := loop.effectiveBalanceIncrements.set i
          (effectiveIncrements (withEffectiveBalance validator balance))
        nextEpochTotalActiveBalanceByIncrement := loop.nextEpochTotalActiveBalanceByIncrement +
          if isActiveNextEpoch.getD i false then
            effectiveIncrements (withEffectiveBalance validator balance)
          else 0 } := by
  have hkept : loop.effectiveBalanceIncrements.getD i 0 = effectiveIncrements validator := by
    rw [List.getD_eq_getElem?_getD, hagree i validator hvalidator, Option.getD_some]
  have hincrements : loop.effectiveBalanceIncrements.set i (effectiveIncrements validator) =
      loop.effectiveBalanceIncrements := set_eq_self (hagree i validator hvalidator)
  rw [effectiveIncrements_withEffectiveBalance]
  unfold updateEffectiveBalance withEffectiveBalance
  dsimp only
  rw [hkept]
  split
  next hmisplaced =>
    rw [modify_eq_set_of_getElem? hvalidator, Nat.mod_eq_of_lt (increments_lt balance)]
    congr 1
    split <;> rfl
  next hmisplaced =>
    rw [set_eq_self hvalidator, hincrements]
    congr 1
    split <;> rfl

/-- The state of the loop after the balances of the first validators. -/
structure LoopDone (isActiveNextEpoch : List Bool) (balances : List Nat)
    (validators : List Validator) (loop : EffectiveBalancesLoop) : Prop where
  validators : loop.validators = updatedBelow balances.length balances validators
  agree : IncrementsAgree loop.validators loop.effectiveBalanceIncrements
  total : loop.nextEpochTotalActiveBalanceByIncrement =
    ((List.range balances.length).map (nextIncrements isActiveNextEpoch loop.validators)).sum

theorem getElem?_updatedBelow (k : Nat) (balances : List Nat) (validators : List Validator)
    (i : Nat) : (updatedBelow k balances validators)[i]? = validators[i]?.map fun validator =>
      if i < k then withEffectiveBalance validator (balances.getD i 0) else validator :=
  List.getElem?_mapIdx

theorem updatedBelow_succ {balances : List Nat} {balance : Nat} {validators : List Validator}
    {validator : Validator} (hvalidator : validators[balances.length]? = some validator) :
    updatedBelow (balances.length + 1) (balances ++ [balance]) validators =
      (updatedBelow balances.length balances validators).set balances.length
        (withEffectiveBalance validator balance) := by
  refine List.ext_getElem? fun i => ?_
  have hlt := (List.getElem?_eq_some_iff.1 hvalidator).1
  rw [getElem?_updatedBelow, List.getElem?_set]
  by_cases heq : balances.length = i
  · subst heq
    rw [if_pos rfl, if_pos (by simpa [updatedBelow] using hlt), hvalidator]
    simp
  · rw [if_neg heq, getElem?_updatedBelow]
    cases validators[i]? with
    | none => rfl
    | some other =>
      rw [Option.map_some, Option.map_some]
      by_cases hbefore : i < balances.length
      · rw [if_pos hbefore, if_pos (Nat.lt_succ_of_lt hbefore)]
        simp only [List.getD_eq_getElem?_getD, List.getElem?_append_left hbefore]
      · rw [if_neg hbefore, if_neg (by omega)]

theorem foldl_updateEffectiveBalance {validators : List Validator}
    {effectiveBalanceIncrements : List Nat}
    (hagree : IncrementsAgree validators effectiveBalanceIncrements) (balances : List Nat)
    (hlength : balances.length ≤ validators.length) :
    LoopDone isActiveNextEpoch balances validators
      (balances.zipIdx.foldl (updateEffectiveBalance isActiveNextEpoch)
        { validators, effectiveBalanceIncrements, nextEpochTotalActiveBalanceByIncrement := 0 }) := by
  induction balances using List.reverseRecOn with
  | nil =>
    refine ⟨List.ext_getElem? fun i => ?_, hagree, rfl⟩
    simp [getElem?_updatedBelow]
  | append_singleton balances balance ih =>
    rw [List.length_append, List.length_singleton] at hlength
    have ih := ih (by omega)
    rw [List.zipIdx_append, List.foldl_append]
    generalize balances.zipIdx.foldl (updateEffectiveBalance isActiveNextEpoch) _ = loop at ih ⊢
    obtain ⟨validator, hvalidator⟩ : ∃ validator, validators[balances.length]? = some validator :=
      ⟨_, List.getElem?_eq_getElem hlength⟩
    have hloop : loop.validators[balances.length]? = some validator := by
      rw [ih.validators, getElem?_updatedBelow, hvalidator, Option.map_some,
        if_neg (Nat.lt_irrefl _)]
    have hlt := (List.getElem?_eq_some_iff.1 hloop).1
    have hlt' := (List.getElem?_eq_some_iff.1 (ih.agree _ _ hloop)).1
    rw [List.zipIdx_singleton, List.foldl_cons, List.foldl_nil, Nat.zero_add,
      updateEffectiveBalance_eq ih.agree hloop]
    refine ⟨?_, ?_, ?_⟩
    · dsimp only
      rw [ih.validators, List.length_append, List.length_singleton, updatedBelow_succ hvalidator]
    · intro i other hother
      dsimp only at hother ⊢
      by_cases heq : balances.length = i
      · subst heq
        rw [List.getElem?_set_self hlt] at hother
        rw [List.getElem?_set_self hlt', Option.some.inj hother]
      · rw [List.getElem?_set_ne heq] at hother ⊢
        exact ih.agree i other hother
    · dsimp only
      rw [List.length_append, List.length_singleton, List.range_succ, List.map_append,
        List.sum_append, ih.total]
      congr 1
      · refine congrArg List.sum (List.map_congr_left fun i hi => ?_)
        unfold nextIncrements
        rw [List.getElem?_set_ne (Nat.ne_of_gt (List.mem_range.1 hi))]
      · unfold nextIncrements
        rw [List.map_singleton, List.sum_singleton, List.getElem?_set_self hlt]
        rfl

end

end Lodestar.StateTransition

import Lodestar.StateTransition.AltairRewards
import Lodestar.StateTransition.Operations
import Lodestar.StateTransition.Phase0Rewards
import Lodestar.StateTransition.RegistryUpdates

/-!
# Balances of the epoch transition

`allForks/epoch`: `processRewardsAndPenalties.ts` keeps the balances that it
writes, `processSlashings.ts` lowers some of them in the state alone, and
`processEffectiveBalanceUpdates.ts` reads those that were kept. So the effective
balances follow the balances as far as the penalty of the slashed validators
makes no difference (`followsBalances_iff`).
-/

namespace Lodestar.StateTransition

open Lodestar.Base

section

variable [Preset]

/-! ## Rewards -/

/-- The state of a fork's `processEpoch`. -/
inductive EpochState where
  | phase0 (state : CachedBeaconStatePhase0 (List Nat))
  | altair (state : CachedBeaconStateAltair (List Nat))

namespace EpochState

def fork : EpochState → ForkName
  | phase0 _ => .phase0
  | altair _ => .altair

def cached : EpochState → CachedBeaconState (List Nat)
  | phase0 state => state.toCachedBeaconState
  | altair state => state.toCachedBeaconState

def beforeProcessEpoch : EpochState → Except String EpochProcess
  | phase0 state => state.beforeProcessEpoch
  | altair state => state.beforeProcessEpoch

def rewardsAndPenalties (epochProcess : EpochProcess) : EpochState → List Nat × List Nat
  | phase0 state => state.getAttestationDeltas epochProcess
  | altair state => state.getRewardsAndPenalties epochProcess

def deltas (state : EpochState) (epochProcess : EpochProcess) : List Int :=
  let (rewards, penalties) := state.rewardsAndPenalties epochProcess
  List.zipWith (fun (reward penalty : Nat) => (reward - penalty : Int)) rewards penalties

end EpochState

/-- `updateAll` is `tree_newTreeFromDeltas` of the type of the balances. -/
def processRewardsAndPenaltiesAllForks (updateAll : List Nat → List Int → List Nat)
    (state : EpochState) (epochProcess : EpochProcess) :
    CachedBeaconState (List Nat) × EpochProcess :=
  if epochProcess.currentEpoch = GENESIS_EPOCH then (state.cached, epochProcess)
  else
    let balances := updateAll state.cached.balanceList (state.deltas epochProcess)
    ({ state.cached with balanceList := balances }, { epochProcess with balances := some balances })

/-! ## Slashings -/

def proportionalSlashingMultiplier : ForkName → Nat
  | .phase0 => PROPORTIONAL_SLASHING_MULTIPLIER
  | .altair => PROPORTIONAL_SLASHING_MULTIPLIER_ALTAIR
  | .bellatrix => PROPORTIONAL_SLASHING_MULTIPLIER_BELLATRIX

/-- The penalty of one validator. -/
def slashingPenalty (fork : ForkName) (state : CachedBeaconState (List Nat))
    (process : EpochProcess) (index : Nat) : Nat :=
  let totalBalance := process.totalActiveStakeByIncrement * EFFECTIVE_BALANCE_INCREMENT
  let totalSlashings := state.slashings.sum
  let adjustedTotalSlashingBalance :=
    min (totalSlashings * proportionalSlashingMultiplier fork) totalBalance
  let effectiveBalanceIncrement := state.epochCtx.effectiveBalanceIncrements.getD index 0
  let penaltyNumerator := effectiveBalanceIncrement * adjustedTotalSlashingBalance
  penaltyNumerator / totalBalance * EFFECTIVE_BALANCE_INCREMENT

def processSlashingsAllForks (fork : ForkName) (state : CachedBeaconState (List Nat))
    (process : EpochProcess) : CachedBeaconState (List Nat) :=
  if process.indicesToSlash.isEmpty then state
  else
    { state with
      balanceList := process.indicesToSlash.foldl (fun balanceList index =>
        decreaseBalance balanceList index (slashingPenalty fork state process index))
        state.balanceList }

/-- The steps of `processEpoch` from the rewards on that read or write balances. -/
def processEpochBalances (updateAll : List Nat → List Int → List Nat) (state : EpochState)
    (epochProcess : EpochProcess) : CachedBeaconState (List Nat) × EpochProcess :=
  let (cached, epochProcess) := processRewardsAndPenaltiesAllForks updateAll state epochProcess
  let cached := processRegistryUpdates cached epochProcess
  let cached := processSlashingsAllForks state.fork cached epochProcess
  processEffectiveBalanceUpdates cached epochProcess

/-! ## The specification -/

/-- `process_effective_balance_updates` of one validator. -/
def specEffectiveBalance (effectiveBalance balance : Nat) : Nat :=
  if balance + DOWNWARD_THRESHOLD < effectiveBalance
      ∨ effectiveBalance + UPWARD_THRESHOLD < balance then
    min (balance - balance % EFFECTIVE_BALANCE_INCREMENT) MAX_EFFECTIVE_BALANCE
  else effectiveBalance

/-- Each effective balance is the update of the one before from the balance that is left. -/
def FollowsBalances (before after : CachedBeaconState (List Nat)) : Prop :=
  ∀ (i : Nat) (validator : Validator), before.validators[i]? = some validator →
    ∃ (validator' : Validator) (balance : Nat), after.validators[i]? = some validator' ∧
      after.balanceList[i]? = some balance ∧
      validator'.effectiveBalance = specEffectiveBalance validator.effectiveBalance balance

/-- Each validator has a balance and its effective balance in the cache, whole increments up to
the maximum. -/
structure BalancesAgree (state : CachedBeaconState (List Nat)) : Prop where
  length : state.balanceList.length = state.validators.length
  agree : IncrementsAgree state.validators state.epochCtx.effectiveBalanceIncrements
  whole : ∀ validator ∈ state.validators,
    effectiveIncrements validator * EFFECTIVE_BALANCE_INCREMENT = validator.effectiveBalance
  le : ∀ validator ∈ state.validators, validator.effectiveBalance ≤ MAX_EFFECTIVE_BALANCE

theorem effectiveBalance_withEffectiveBalance {validator : Validator} (balance : Nat)
    (hwhole : effectiveIncrements validator * EFFECTIVE_BALANCE_INCREMENT
      = validator.effectiveBalance)
    (hle : validator.effectiveBalance ≤ MAX_EFFECTIVE_BALANCE) :
    (withEffectiveBalance validator balance).effectiveBalance
      = specEffectiveBalance validator.effectiveBalance balance := by
  unfold withEffectiveBalance specEffectiveBalance
  rw [hwhole]
  unfold isMisplaced
  by_cases hmax : validator.effectiveBalance < MAX_EFFECTIVE_BALANCE
  · rw [decide_eq_true hmax, Bool.true_and, ← Bool.decide_or]
    simp only [decide_eq_true_eq]
    split <;> rfl
  · have heq : validator.effectiveBalance = MAX_EFFECTIVE_BALANCE := by omega
    have hup := le_UPWARD_THRESHOLD
    have hmod := Nat.mod_lt balance Preset.EFFECTIVE_BALANCE_INCREMENT_pos
    rw [decide_eq_false hmax, Bool.false_and, Bool.or_false]
    simp only [decide_eq_true_eq]
    by_cases hbig : balance + DOWNWARD_THRESHOLD < validator.effectiveBalance
    · rw [if_pos hbig, if_pos (.inl hbig)]
    · rw [if_neg hbig]
      split
      next h =>
        have hsmall := h.resolve_left hbig
        rw [heq, min_eq_right (by omega)]
      next => rfl

/-! ## Registry updates -/

/-- What the registry updates leave as it is. -/
structure BalanceFrame (state state' : CachedBeaconState (List Nat)) : Prop where
  effectiveBalance : state'.validators.map (·.effectiveBalance)
    = state.validators.map (·.effectiveBalance)
  balanceList : state'.balanceList = state.balanceList
  slashings : state'.slashings = state.slashings
  increments : state'.epochCtx.effectiveBalanceIncrements
    = state.epochCtx.effectiveBalanceIncrements

section

variable {state state' : CachedBeaconState (List Nat)}

omit [Preset] in
theorem BalanceFrame.trans {last : CachedBeaconState (List Nat)} (h : BalanceFrame state state')
    (hnext : BalanceFrame state' last) : BalanceFrame state last where
  effectiveBalance := hnext.effectiveBalance.trans h.effectiveBalance
  balanceList := hnext.balanceList.trans h.balanceList
  slashings := hnext.slashings.trans h.slashings
  increments := hnext.increments.trans h.increments

omit [Preset] in
theorem balanceFrame_initiateValidatorExit (state : CachedBeaconState (List Nat)) (i : Nat) :
    BalanceFrame state (state.initiateValidatorExit i) := by
  unfold CachedBeaconState.initiateValidatorExit
  cases hvalidator : state.validators[i]? with
  | none => exact ⟨rfl, rfl, rfl, rfl⟩
  | some validator =>
    unfold StateTransition.initiateValidatorExit
    by_cases hexit : validator.exitEpoch ≠ FAR_FUTURE_EPOCH
    · simp only [if_pos hexit]
      exact ⟨map_set_of_eq hvalidator rfl, rfl, rfl, rfl⟩
    · simp only [if_neg hexit]
      refine ⟨map_set_of_eq hvalidator rfl, rfl, rfl, ?_⟩
      dsimp only
      split <;> rfl

omit [Preset] in
theorem balanceFrame_foldl (state : CachedBeaconState (List Nat)) (indices : List Nat) :
    BalanceFrame state (indices.foldl CachedBeaconState.initiateValidatorExit state) := by
  induction indices generalizing state with
  | nil => exact ⟨rfl, rfl, rfl, rfl⟩
  | cons i indices ih => exact (balanceFrame_initiateValidatorExit state i).trans (ih _)

theorem balanceFrame_processRegistryUpdates (state : CachedBeaconState (List Nat))
    (epochProcess : EpochProcess) :
    BalanceFrame state (processRegistryUpdates state epochProcess) := by
  refine (balanceFrame_foldl state epochProcess.indicesToEject).trans ⟨?_, rfl, rfl, rfl⟩
  unfold processRegistryUpdates
  dsimp only
  rw [processActivations_eq, map_modifyAt (f := activateAt _) fun _ => rfl,
    map_modifyAt (f := setEligible _) fun _ => rfl]

omit [Preset] in
theorem BalanceFrame.exists_validator (h : BalanceFrame state state') {i : Nat}
    {validator : Validator} (hvalidator : state.validators[i]? = some validator) :
    ∃ validator', state'.validators[i]? = some validator' ∧
      validator'.effectiveBalance = validator.effectiveBalance := by
  have hi := congrArg (fun l => l[i]?) h.effectiveBalance
  simp only [List.getElem?_map, hvalidator, Option.map_some] at hi
  exact Option.map_eq_some_iff.mp hi

theorem BalanceFrame.agree (h : BalanceFrame state state')
    (hagree : IncrementsAgree state.validators state.epochCtx.effectiveBalanceIncrements) :
    IncrementsAgree state'.validators state'.epochCtx.effectiveBalanceIncrements := by
  intro i validator' hvalidator'
  have hi := congrArg (fun l => l[i]?) h.effectiveBalance
  simp only [List.getElem?_map, hvalidator', Option.map_some] at hi
  obtain ⟨validator, hvalidator, heq⟩ := Option.map_eq_some_iff.mp hi.symm
  rw [h.increments, hagree i validator hvalidator]
  unfold effectiveIncrements
  rw [heq]

omit [Preset] in
theorem BalanceFrame.length_eq (h : BalanceFrame state state') :
    state'.validators.length = state.validators.length := by
  have hlength := congrArg List.length h.effectiveBalance
  rwa [List.length_map, List.length_map] at hlength

theorem BalanceFrame.slashingPenalty_eq (h : BalanceFrame state state') (fork : ForkName)
    (process : EpochProcess) (i : Nat) :
    slashingPenalty fork state' process i = slashingPenalty fork state process i := by
  unfold slashingPenalty
  rw [h.slashings, h.increments]

end

/-! ## What the steps leave -/

omit [Preset] in
theorem getElem?_foldl_decreaseBalance {indices : List Nat} (hnodup : indices.Nodup)
    (penalty : Nat → Nat) (balanceList : List Nat) (i : Nat) :
    (indices.foldl (fun balanceList index => decreaseBalance balanceList index (penalty index))
      balanceList)[i]?
      = balanceList[i]?.map fun balance =>
        if i ∈ indices then balance - penalty i else balance := by
  induction indices generalizing balanceList with
  | nil => simp
  | cons j indices ih =>
    obtain ⟨hj, hnodup⟩ := List.nodup_cons.mp hnodup
    rw [List.foldl_cons, ih hnodup, decreaseBalance, List.getElem?_modify]
    cases balanceList[i]? with
    | none => rfl
    | some balance =>
      by_cases heq : j = i
      · subst heq
        simp [hj]
      · simp [heq, Ne.symm heq]

theorem balanceList_processSlashingsAllForks (fork : ForkName)
    (state : CachedBeaconState (List Nat)) {process : EpochProcess}
    (hnodup : process.indicesToSlash.Nodup) (i : Nat) :
    (processSlashingsAllForks fork state process).balanceList[i]?
      = state.balanceList[i]?.map fun balance =>
        if i ∈ process.indicesToSlash then balance - slashingPenalty fork state process i
        else balance := by
  unfold processSlashingsAllForks
  split
  next hempty => simp [List.isEmpty_iff.mp hempty]
  next => exact getElem?_foldl_decreaseBalance hnodup (slashingPenalty fork state process) _ i

theorem EpochState.beforeProcessEpoch_ok {state : EpochState} {epochProcess : EpochProcess}
    (h : state.beforeProcessEpoch = .ok epochProcess) :
    epochProcess.statuses.length = state.cached.validators.length ∧
    epochProcess.indicesToSlash.Nodup := by
  cases state with
  | phase0 state =>
    have hbefore : state.beforeProcessEpoch = .ok epochProcess := h
    refine ⟨length_statuses_phase0 hbefore, ?_⟩
    unfold CachedBeaconStatePhase0.beforeProcessEpoch at hbefore
    obtain ⟨-, -, -, -, hslash⟩ := beforeProcessEpoch_indices hbefore
    exact hslash ▸ nodup_indicesWhere
  | altair state =>
    have hbefore : state.beforeProcessEpoch = .ok epochProcess := h
    refine ⟨length_statuses_altair hbefore, ?_⟩
    unfold CachedBeaconStateAltair.beforeProcessEpoch at hbefore
    obtain ⟨-, -, -, -, hslash⟩ := beforeProcessEpoch_indices hbefore
    exact hslash ▸ nodup_indicesWhere

theorem EpochState.length_deltas (state : EpochState) {epochProcess : EpochProcess}
    (hstatuses : epochProcess.statuses.length = state.cached.validators.length) :
    (state.deltas epochProcess).length = state.cached.validators.length := by
  have hlengths : (state.rewardsAndPenalties epochProcess).1.length = state.cached.validators.length ∧
      (state.rewardsAndPenalties epochProcess).2.length = state.cached.validators.length := by
    cases state with
    | phase0 state =>
      obtain ⟨hrewards, hpenalties⟩ := state.length_getAttestationDeltas epochProcess
      exact ⟨hrewards.trans hstatuses, hpenalties.trans hstatuses⟩
    | altair state => exact state.length_getRewardsAndPenalties epochProcess
  unfold EpochState.deltas
  rw [List.length_zipWith, hlengths.1, hlengths.2, min_self]

theorem processSlashingsAllForks_frame (fork : ForkName) (state : CachedBeaconState (List Nat))
    (process : EpochProcess) :
    (processSlashingsAllForks fork state process).validators = state.validators ∧
    (processSlashingsAllForks fork state process).epochCtx = state.epochCtx := by
  unfold processSlashingsAllForks
  split <;> exact ⟨rfl, rfl⟩

/-! ## Balances and effective balances -/

/-- The balances with the rewards and penalties of the epoch. -/
def rewardedBalances (updateAll : List Nat → List Int → List Nat) (state : EpochState)
    (epochProcess : EpochProcess) : List Nat :=
  updateAll state.cached.balanceList (state.deltas epochProcess)

/-- The balance of a validator that is slashed gives the effective balance that it gives after the
penalty. -/
def PenaltyMakesNoDifference (updateAll : List Nat → List Int → List Nat) (state : EpochState)
    (epochProcess : EpochProcess) : Prop :=
  ∀ i ∈ epochProcess.indicesToSlash, ∀ validator ∈ state.cached.validators[i]?,
    ∀ balance ∈ (rewardedBalances updateAll state epochProcess)[i]?,
      specEffectiveBalance validator.effectiveBalance balance
        = specEffectiveBalance validator.effectiveBalance
          (balance - slashingPenalty state.fork state.cached epochProcess i)

instance {updateAll : List Nat → List Int → List Nat} {state : EpochState}
    {epochProcess : EpochProcess} :
    Decidable (PenaltyMakesNoDifference updateAll state epochProcess) :=
  inferInstanceAs (Decidable (∀ i ∈ _, ∀ validator ∈ _, ∀ balance ∈ _, _ = _))

/-- `updateAll` of as many deltas as balances keeps the length. -/
def KeepsLength (updateAll : List Nat → List Int → List Nat) : Prop :=
  ∀ balances deltas, deltas.length = balances.length →
    (updateAll balances deltas).length = balances.length

section

variable {updateAll : List Nat → List Int → List Nat} {state₀ state : EpochState}
  {epochProcess : EpochProcess}

theorem length_rewardedBalances (hupdate : KeepsLength updateAll)
    (hagree : BalancesAgree state.cached)
    (hstatuses : epochProcess.statuses.length = state.cached.validators.length) :
    (rewardedBalances updateAll state epochProcess).length = state.cached.validators.length := by
  have hdeltas := state.length_deltas hstatuses
  have hlength := hupdate state.cached.balanceList (state.deltas epochProcess)
    (hdeltas.trans hagree.length.symm)
  exact hlength.trans hagree.length

/-- An effective balance is updated from the rewarded balance, and the penalty is taken off the
balance that is left. -/
theorem processEpochBalances_getElem? (hagree : BalancesAgree state.cached)
    (hlength : (rewardedBalances updateAll state epochProcess).length
      = state.cached.validators.length)
    (hepoch : epochProcess.currentEpoch ≠ GENESIS_EPOCH)
    (hnodup : epochProcess.indicesToSlash.Nodup) {i balance : Nat} {validator : Validator}
    (hvalidator : state.cached.validators[i]? = some validator)
    (hbalance : (rewardedBalances updateAll state epochProcess)[i]? = some balance) :
    ∃ validator',
      (processEpochBalances updateAll state epochProcess).1.validators[i]? = some validator' ∧
      validator'.effectiveBalance = specEffectiveBalance validator.effectiveBalance balance ∧
      (processEpochBalances updateAll state epochProcess).1.balanceList[i]? =
        some (if i ∈ epochProcess.indicesToSlash then
          balance - slashingPenalty state.fork state.cached epochProcess i else balance) := by
  have hrewards : processRewardsAndPenaltiesAllForks updateAll state epochProcess =
      ({ state.cached with balanceList := rewardedBalances updateAll state epochProcess },
        { epochProcess with balances := some (rewardedBalances updateAll state epochProcess) }) :=
    if_neg hepoch
  unfold processEpochBalances
  rw [hrewards]
  generalize rewardedBalances updateAll state epochProcess = balances at hlength hbalance ⊢
  dsimp only
  generalize hprocess : { epochProcess with balances := some balances } = process
  have hframe := balanceFrame_processRegistryUpdates
    { state.cached with balanceList := balances } process
  generalize processRegistryUpdates { state.cached with balanceList := balances } process = updated
    at hframe ⊢
  obtain ⟨hslashed, hepochCtx⟩ := processSlashingsAllForks_frame state.fork updated process
  obtain ⟨validator', hvalidator', heffective⟩ := hframe.exists_validator hvalidator
  have hloop : LoopDone process.isActiveNextEpoch balances updated.validators _ :=
    foldl_updateEffectiveBalance (hframe.agree hagree.agree) balances
      (hlength.trans hframe.length_eq.symm).le
  have hpost : (processEffectiveBalanceUpdates
      (processSlashingsAllForks state.fork updated process) process).1.validators =
      updatedBelow balances.length balances updated.validators := by
    rw [← hloop.validators, ← hslashed, ← hepochCtx, ← hprocess]
    rfl
  have hlt := (List.getElem?_eq_some_iff.mp hbalance).1
  refine ⟨withEffectiveBalance validator' balance, ?_, ?_, ?_⟩
  · rw [hpost, getElem?_updatedBelow, hvalidator', Option.map_some, if_pos hlt,
      List.getD_eq_getElem?_getD, hbalance, Option.getD_some]
  · have hmem := List.mem_of_getElem? hvalidator
    have hincrements : effectiveIncrements validator' = effectiveIncrements validator := by
      unfold effectiveIncrements
      rw [heffective]
    rw [effectiveBalance_withEffectiveBalance, heffective]
    · rw [hincrements, heffective, hagree.whole validator hmem]
    · exact heffective ▸ hagree.le validator hmem
  · show (processSlashingsAllForks state.fork updated process).balanceList[i]? = _
    rw [balanceList_processSlashingsAllForks _ _ (hprocess ▸ hnodup), hframe.balanceList,
      hframe.slashingPenalty_eq, hbalance, ← hprocess]
    rfl

/-- In every epoch transition after genesis, the effective balances follow the balances if and only
if the penalty of no slashed validator makes a difference. -/
theorem followsBalances_iff (hupdate : KeepsLength updateAll) (hagree : BalancesAgree state.cached)
    (hprocess : state₀.beforeProcessEpoch = .ok epochProcess)
    (hvalidators : state.cached.validators = state₀.cached.validators)
    (hepoch : epochProcess.currentEpoch ≠ GENESIS_EPOCH) :
    FollowsBalances state.cached (processEpochBalances updateAll state epochProcess).1 ↔
      PenaltyMakesNoDifference updateAll state epochProcess := by
  obtain ⟨hstatuses, hnodup⟩ := EpochState.beforeProcessEpoch_ok hprocess
  have hlength := length_rewardedBalances hupdate hagree (hvalidators ▸ hstatuses)
  constructor
  · intro hfollows i hi validator hvalidator balance hbalance
    obtain ⟨validator', hvalidator', heffective, hleft⟩ :=
      processEpochBalances_getElem? hagree hlength hepoch hnodup hvalidator hbalance
    obtain ⟨validator'', balance', hvalidator'', hbalance', hupdated⟩ :=
      hfollows i validator hvalidator
    rw [if_pos hi, hbalance'] at hleft
    obtain rfl := Option.some.inj hleft
    obtain rfl := Option.some.inj (hvalidator'.symm.trans hvalidator'')
    exact heffective.symm.trans hupdated
  · intro hsame i validator hvalidator
    have hlt := (List.getElem?_eq_some_iff.mp hvalidator).1
    have hbalance := List.getElem?_eq_getElem (hlength ▸ hlt)
    obtain ⟨validator', hvalidator', heffective, hleft⟩ :=
      processEpochBalances_getElem? hagree hlength hepoch hnodup hvalidator hbalance
    refine ⟨validator', _, hvalidator', hleft, ?_⟩
    split
    next hi => exact heffective.trans (hsame i hi validator hvalidator _ hbalance)
    next => exact heffective

end

end

/-! ## A validator slashed half a vector ago -/

local instance epochBalancesPreset : Preset := minimal

/-- Active from genesis on; the second was slashed in epoch 3. -/
def halfwayValidator (slashed : Bool) : Validator where
  pubkey := 0
  withdrawalCredentials := 0
  effectiveBalance := 32000000000
  slashed
  activationEligibilityEpoch := 0
  activationEpoch := 0
  exitEpoch := if slashed then 8 else ⊤
  withdrawableEpoch := if slashed then 67 else ⊤

/-- The last slot of epoch 35. -/
def halfwayState (balance slashing : Nat) : CachedBeaconStateAltair (List Nat) where
  config := { chainConfigMinimal with ALTAIR_FORK_EPOCH := 0 }
  slot := 287
  validators := [halfwayValidator false, halfwayValidator true]
  balanceList := [32000000000, balance]
  slashings := [slashing]
  finalizedCheckpoint := ⟨33, 0xa1⟩
  inactivityScores := [0, 0]
  epochCtx :=
    { previousShuffling := ⟨34, [0]⟩
      currentShuffling := ⟨35, [0]⟩
      nextShuffling := ⟨36, [0]⟩
      effectiveBalanceIncrements := [32, 32]
      totalActiveBalanceIncrements := 32
      churnLimit := 4
      exitQueueEpoch := 40
      exitQueueChurn := 0
      epoch := 35 }
  blockRoots := Vector.replicate 64 0xb0
  randaoMixes := Vector.replicate 64 0
  justificationBits := Vector.replicate 4 false
  previousJustifiedCheckpoint := ⟨33, 0xa1⟩
  currentJustifiedCheckpoint := ⟨34, 0xa2⟩
  epochCache :=
    { previousCommittees := ⟨[0], [], 1⟩
      currentCommittees := ⟨[0], [], 1⟩
      nextCommittees := ⟨[0], [], 1⟩
      proposers := []
      syncParticipantReward := 0
      baseRewardPerIncrement := 0
      currentSyncCommitteeIndexed := none
      nextSyncCommitteeIndexed := none
      syncPeriod := 0 }
  previousEpochParticipation := [0x07, 0x00]
  currentEpochParticipation := [0x07, 0x00]
  currentSyncCommittee := ⟨[], 0⟩
  nextSyncCommittee := ⟨[], 0⟩

/-- A delta below zero leaves nothing. -/
def addDeltas (balances : List Nat) (deltas : List Int) : List Nat :=
  List.zipWith (fun balance delta => (balance + delta).toNat) balances deltas

theorem keepsLength_addDeltas : KeepsLength addDeltas := by
  intro balances deltas hlength
  unfold addDeltas
  rw [List.length_zipWith, hlength, min_self]

theorem balancesAgree_halfwayState (balance slashing : Nat) :
    BalancesAgree (EpochState.altair (halfwayState balance slashing)).cached where
  length := rfl
  agree i validator hvalidator := by
    have hi : i < 2 := (List.getElem?_eq_some_iff.mp hvalidator).1
    interval_cases i <;> obtain rfl := Option.some.inj hvalidator <;> rfl
  whole := (by decide : ∀ validator ∈ [halfwayValidator false, halfwayValidator true],
    effectiveIncrements validator * EFFECTIVE_BALANCE_INCREMENT = validator.effectiveBalance)
  le := (by decide : ∀ validator ∈ [halfwayValidator false, halfwayValidator true],
    validator.effectiveBalance ≤ MAX_EFFECTIVE_BALANCE)

/-- A penalty of one increment takes what is above the maximum. -/
theorem followsBalances_halfwayState :
    ∃ process, (EpochState.altair (halfwayState 34000000000 500000000)).beforeProcessEpoch
        = .ok process ∧
      FollowsBalances (EpochState.altair (halfwayState 34000000000 500000000)).cached
        (processEpochBalances addDeltas (.altair (halfwayState 34000000000 500000000))
          process).1 := by
  have hrun : (EpochState.altair (halfwayState 34000000000 500000000)).beforeProcessEpoch.toOption.map
      (fun process => (process.currentEpoch, decide (PenaltyMakesNoDifference addDeltas
        (.altair (halfwayState 34000000000 500000000)) process))) = some (35, true) := by
    decide +kernel
  obtain ⟨process, hprocess, hcond⟩ := exists_ok_of_map hrun
  obtain ⟨hepoch, hcond⟩ := Prod.mk.inj hcond
  refine ⟨process, hprocess, ?_⟩
  exact (followsBalances_iff keepsLength_addDeltas (balancesAgree_halfwayState _ _) hprocess rfl
    (by rw [hepoch]; decide)).mpr (of_decide_eq_true hcond)

/-- All that is left is taken, and the effective balance stays at the maximum. -/
theorem halfwayState_not_followsBalances :
    BalancesAgree (EpochState.altair (halfwayState 32000000000 32000000000)).cached ∧
    ∃ process, (EpochState.altair (halfwayState 32000000000 32000000000)).beforeProcessEpoch
        = .ok process ∧ process.currentEpoch = 35 ∧
      ¬ FollowsBalances (EpochState.altair (halfwayState 32000000000 32000000000)).cached
        (processEpochBalances addDeltas (.altair (halfwayState 32000000000 32000000000))
          process).1 := by
  have hrun : (EpochState.altair (halfwayState 32000000000 32000000000)).beforeProcessEpoch.toOption.map
      (fun process =>
        let post := (processEpochBalances addDeltas
          (.altair (halfwayState 32000000000 32000000000)) process).1
        (process.currentEpoch, post.validators[1]?.map (·.effectiveBalance), post.balanceList[1]?))
      = some (35, some 32000000000, some 0) := by
    decide +kernel
  obtain ⟨process, hprocess, hpost⟩ := exists_ok_of_map hrun
  obtain ⟨hepoch, hpost⟩ := Prod.mk.inj hpost
  obtain ⟨hvalidators, hbalances⟩ := Prod.mk.inj hpost
  refine ⟨balancesAgree_halfwayState _ _, process, hprocess, hepoch, fun h => ?_⟩
  obtain ⟨validator', balance, hvalidator, hbalance, heq⟩ := h 1 (halfwayValidator true) rfl
  have heffective : validator'.effectiveBalance = 32000000000 := by
    rw [hvalidator] at hvalidators
    exact Option.some.inj hvalidators
  have hzero : balance = 0 := Option.some.inj (hbalance.symm.trans hbalances)
  rw [heffective, hzero] at heq
  exact absurd heq (by decide)

end Lodestar.StateTransition

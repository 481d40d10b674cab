import Mathlib.Data.Nat.Bitwise
import Lodestar.Base.Except
import Lodestar.StateTransition.Util
import Lodestar.StateTransition.State

/-!
# What the epoch transition computes up front

`cache/epochProcess.ts`, `util/attesterStatus.ts` and the phase0
`processPendingAttestations.ts`. The loop of `beforeProcessEpoch` over the
registry only appends to its lists and adds to its sums, so each of them is
written on its own.
-/

namespace Lodestar.StateTransition

variable [Preset]

/-! ## Attester statuses -/

def FLAG_PREV_SOURCE_ATTESTER : Nat := 1 <<< 0
def FLAG_PREV_TARGET_ATTESTER : Nat := 1 <<< 1
def FLAG_PREV_HEAD_ATTESTER : Nat := 1 <<< 2
def FLAG_CURR_SOURCE_ATTESTER : Nat := 1 <<< 3
def FLAG_CURR_TARGET_ATTESTER : Nat := 1 <<< 4
def FLAG_CURR_HEAD_ATTESTER : Nat := 1 <<< 5
def FLAG_UNSLASHED : Nat := 1 <<< 6
def FLAG_ELIGIBLE_ATTESTER : Nat := 1 <<< 7

def FLAG_PREV_SOURCE_ATTESTER_OR_UNSLASHED : Nat := FLAG_PREV_SOURCE_ATTESTER ||| FLAG_UNSLASHED
def FLAG_PREV_TARGET_ATTESTER_OR_UNSLASHED : Nat := FLAG_PREV_TARGET_ATTESTER ||| FLAG_UNSLASHED
def FLAG_PREV_HEAD_ATTESTER_OR_UNSLASHED : Nat := FLAG_PREV_HEAD_ATTESTER ||| FLAG_UNSLASHED
def FLAG_CURR_TARGET_UNSLASHED : Nat := FLAG_CURR_TARGET_ATTESTER ||| FLAG_UNSLASHED

structure IAttesterStatus where
  flags : Nat
  /-- `none` for `-1`, when not included by any proposer. -/
  proposerIndex : Option Nat
  inclusionDelay : Nat
  active : Bool
  deriving DecidableEq

def createIAttesterStatus : IAttesterStatus where
  flags := 0
  proposerIndex := none
  inclusionDelay := 0
  active := false

def hasMarkers (flags markers : Nat) : Bool :=
  flags &&& markers = markers

omit [Preset] in
theorem hasMarkers_or (flags a b : Nat) :
    hasMarkers flags (a ||| b) = (hasMarkers flags a && hasMarkers flags b) := by
  unfold hasMarkers
  rw [Bool.eq_iff_iff, Bool.and_eq_true, decide_eq_true_iff, decide_eq_true_iff, decide_eq_true_iff,
    Nat.and_or_distrib_left]
  refine ⟨fun h => ⟨?_, ?_⟩, fun ⟨ha, hb⟩ => by rw [ha, hb]⟩
  · refine Nat.eq_of_testBit_eq fun i => ?_
    have hi := congrArg (Nat.testBit · i) h
    simp only [Nat.testBit_or, Nat.testBit_and] at hi ⊢
    cases hf : flags.testBit i <;> cases ha : a.testBit i <;> simp_all
  · refine Nat.eq_of_testBit_eq fun i => ?_
    have hi := congrArg (Nat.testBit · i) h
    simp only [Nat.testBit_or, Nat.testBit_and] at hi ⊢
    cases hf : flags.testBit i <;> cases hb : b.testBit i <;> simp_all

omit [Preset] in
theorem hasMarkers_one_shiftLeft (flags k : Nat) : hasMarkers flags (1 <<< k) = flags.testBit k := by
  unfold hasMarkers
  rw [Nat.one_shiftLeft, Nat.and_two_pow, Bool.eq_iff_iff, decide_eq_true_iff]
  cases flags.testBit k <;> simp [Nat.two_pow_pos k |>.ne]

/-! ## The registry -/

/-- The indices of the validators that satisfy `p`, in registry order. -/
def indicesWhere (p : Validator → Bool) (validators : List Validator) : List Nat :=
  (validators.zipIdx.filter fun (v, _) => p v).map (·.2)

/-- The status of a validator before its attestations are looked at. -/
def validatorStatus (prevEpoch currentEpoch : Nat) (validator : Validator) : IAttesterStatus :=
  let flags := if validator.slashed then 0 else FLAG_UNSLASHED
  let eligible :=
    isActiveValidator validator prevEpoch
      || validator.slashed && decide (((prevEpoch + 1 : Nat) : WithTop Nat) < validator.withdrawableEpoch)
  { createIAttesterStatus with
    flags := if eligible then flags ||| FLAG_ELIGIBLE_ATTESTER else flags
    active := isActiveValidator validator currentEpoch }

omit [Preset] in
theorem testBit_validatorStatus (prevEpoch currentEpoch : Nat) (validator : Validator) {k : Nat}
    (hk : k < 8) :
    (validatorStatus prevEpoch currentEpoch validator).flags.testBit k
      = (decide (k = 6) && !validator.slashed
        || decide (k = 7) && (isActiveValidator validator prevEpoch || validator.slashed
          && decide (((prevEpoch + 1 : Nat) : WithTop Nat) < validator.withdrawableEpoch))) := by
  unfold validatorStatus
  dsimp only
  generalize (isActiveValidator validator prevEpoch || validator.slashed
    && decide (((prevEpoch + 1 : Nat) : WithTop Nat) < validator.withdrawableEpoch)) = eligible
  cases validator.slashed <;> cases eligible <;> interval_cases k <;> rfl

/-- `indicesToSlash` holds these. -/
def isToSlash (currentEpoch : Nat) (validator : Validator) : Bool :=
  validator.slashed
    && decide (((currentEpoch + EPOCHS_PER_SLASHINGS_VECTOR / 2 : Nat) : WithTop Nat)
      = validator.withdrawableEpoch)

/-- `indicesEligibleForActivationQueue` holds these. -/
def isEligibleForActivationQueue (validator : Validator) : Bool :=
  validator.activationEligibilityEpoch = FAR_FUTURE_EPOCH
    && validator.effectiveBalance = MAX_EFFECTIVE_BALANCE

/-- `indicesEligibleForActivation` holds these. -/
def isEligibleForActivation (currentEpoch : Nat) (validator : Validator) : Bool :=
  !isEligibleForActivationQueue validator
    && (validator.activationEpoch = FAR_FUTURE_EPOCH
      && decide (validator.activationEligibilityEpoch ≤ currentEpoch))

/-- `indicesToEject` holds these. -/
def isToEject (config : ChainConfig) (currentEpoch : Nat) (validator : Validator) : Bool :=
  !isEligibleForActivationQueue validator && !isEligibleForActivation currentEpoch validator
    && (isActiveValidator validator currentEpoch && validator.exitEpoch = FAR_FUTURE_EPOCH
      && decide (validator.effectiveBalance ≤ config.EJECTION_BALANCE))

/-- The order of activations: by eligibility epoch, then by index. -/
def activationOrder (validators : List Validator) (a b : Nat) : Bool :=
  let epoch (i : Nat) : WithTop Nat :=
    match validators[i]? with
    | some validator => validator.activationEligibilityEpoch
    | none => ⊤
  decide (epoch a < epoch b) || epoch a = epoch b && decide (a ≤ b)

/-! ## The epoch process -/

structure UnslashedStake where
  sourceStakeByIncrement : Nat
  targetStakeByIncrement : Nat
  headStakeByIncrement : Nat
  deriving DecidableEq

structure EpochProcess extends NextEpoch where
  prevEpoch : Nat
  currentEpoch : Nat
  totalActiveStakeByIncrement : Nat
  baseRewardPerIncrement : Nat
  prevEpochUnslashedStake : UnslashedStake
  currEpochUnslashedTargetStakeByIncrement : Nat
  indicesToSlash : List Nat
  indicesEligibleForActivationQueue : List Nat
  indicesEligibleForActivation : List Nat
  indicesToEject : List Nat
  isActiveNextEpoch : List Bool
  statuses : List IAttesterStatus
  /-- The balances after `processRewardsAndPenalties`, if it has run. -/
  balances : Option (List Nat)

def totalActiveStakeError : String :=
  "totalActiveStakeByIncrement >= Number.MAX_SAFE_INTEGER. MAX_EFFECTIVE_BALANCE is too low."

def effectiveBalancesByIncrements (validators : List Validator) : List Nat :=
  validators.map fun validator => validator.effectiveBalance / EFFECTIVE_BALANCE_INCREMENT

/-- The stake of the statuses with the markers, one increment at least. -/
def stakeWithMarkers (markers : Nat) (statuses : List IAttesterStatus) (increments : List Nat) :
    Nat :=
  max 1 (((statuses.zip increments).filter fun (status, _) =>
    hasMarkers status.flags markers).map (·.2)).sum

/-- `beforeProcessEpoch`; `withAttestations` is the branch on the fork that adds the flags of the
attesters to the statuses. -/
def beforeProcessEpoch {β : Type} (state : CachedBeaconState β)
    (withAttestations : List IAttesterStatus → Except String (List IAttesterStatus)) :
    Except String EpochProcess := do
  let currentEpoch := state.epochCtx.currentShuffling.epoch
  let prevEpoch := state.epochCtx.previousShuffling.epoch
  let validators := state.validators
  let increments := effectiveBalancesByIncrements validators
  let totalActiveStakeByIncrement :=
    (((validators.zip increments).filter fun (validator, _) =>
      isActiveValidator validator currentEpoch).map (·.2)).sum
  if MAX_SAFE_INTEGER ≤ totalActiveStakeByIncrement then
    throw totalActiveStakeError
  let totalActiveStakeByIncrement := max 1 totalActiveStakeByIncrement
  let statuses ← withAttestations (validators.map (validatorStatus prevEpoch currentEpoch))
  return {
    prevEpoch
    currentEpoch
    totalActiveStakeByIncrement
    baseRewardPerIncrement := computeBaseRewardPerIncrement totalActiveStakeByIncrement
    prevEpochUnslashedStake :=
      { sourceStakeByIncrement :=
          stakeWithMarkers FLAG_PREV_SOURCE_ATTESTER_OR_UNSLASHED statuses increments
        targetStakeByIncrement :=
          stakeWithMarkers FLAG_PREV_TARGET_ATTESTER_OR_UNSLASHED statuses increments
        headStakeByIncrement :=
          stakeWithMarkers FLAG_PREV_HEAD_ATTESTER_OR_UNSLASHED statuses increments }
    currEpochUnslashedTargetStakeByIncrement :=
      stakeWithMarkers FLAG_CURR_TARGET_UNSLASHED statuses increments
    indicesToSlash := indicesWhere (isToSlash currentEpoch) validators
    indicesEligibleForActivationQueue := indicesWhere isEligibleForActivationQueue validators
    indicesEligibleForActivation :=
      (indicesWhere (isEligibleForActivation currentEpoch) validators).mergeSort
        (activationOrder validators)
    indicesToEject := indicesWhere (isToEject state.config currentEpoch) validators
    nextEpochShufflingActiveValidatorIndices :=
      getActiveValidatorIndices validators (currentEpoch + 2)
    nextEpochTotalActiveBalanceByIncrement := 0
    isActiveNextEpoch := validators.map fun validator =>
      isActiveValidator validator (currentEpoch + 1)
    statuses
    balances := none }

theorem beforeProcessEpoch_ok {β : Type} {state : CachedBeaconState β}
    {withAttestations : List IAttesterStatus → Except String (List IAttesterStatus)}
    {process : EpochProcess} (h : beforeProcessEpoch state withAttestations = .ok process) :
    withAttestations (state.validators.map (validatorStatus
        state.epochCtx.previousShuffling.epoch state.epochCtx.currentShuffling.epoch))
      = .ok process.statuses ∧
    process.prevEpoch = state.epochCtx.previousShuffling.epoch ∧
    process.currentEpoch = state.epochCtx.currentShuffling.epoch ∧
    process.totalActiveStakeByIncrement =
      max 1 (((state.validators.zip (effectiveBalancesByIncrements state.validators)).filter
        fun e => isActiveValidator e.1 state.epochCtx.currentShuffling.epoch).map (·.2)).sum ∧
    process.baseRewardPerIncrement =
      computeBaseRewardPerIncrement process.totalActiveStakeByIncrement ∧
    process.prevEpochUnslashedStake =
      { sourceStakeByIncrement := stakeWithMarkers FLAG_PREV_SOURCE_ATTESTER_OR_UNSLASHED
          process.statuses (effectiveBalancesByIncrements state.validators)
        targetStakeByIncrement := stakeWithMarkers FLAG_PREV_TARGET_ATTESTER_OR_UNSLASHED
          process.statuses (effectiveBalancesByIncrements state.validators)
        headStakeByIncrement := stakeWithMarkers FLAG_PREV_HEAD_ATTESTER_OR_UNSLASHED
          process.statuses (effectiveBalancesByIncrements state.validators) } := by
  unfold beforeProcessEpoch at h
  dsimp only at h
  split at h
  · cases h
  · obtain ⟨statuses, hstatuses, hret⟩ := Base.eq_ok_of_bind h
    cases hret
    exact ⟨hstatuses, rfl, rfl, rfl, rfl, rfl⟩

/-! ## The attesters of altair -/

/-- The branch of `beforeProcessEpoch` from altair on. -/
def participationStatuses (previousEpochParticipation currentEpochParticipation :
    List ParticipationFlags) (isActivePrevEpoch : List Bool) (statuses : List IAttesterStatus) :
    List IAttesterStatus :=
  let statuses := statuses.mapIdx fun i status =>
    match previousEpochParticipation[i]? with
    | some participationFlags =>
      if isActivePrevEpoch[i]?.getD false then
        { status with flags := status.flags ||| participationFlags.toNat }
      else status
    | none => status
  statuses.mapIdx fun i status =>
    match currentEpochParticipation[i]? with
    | some participationFlags =>
      if status.active then
        { status with flags := status.flags ||| participationFlags.toNat <<< 3 }
      else status
    | none => status

def CachedBeaconStateAltair.beforeProcessEpoch {β : Type} (state : CachedBeaconStateAltair β) :
    Except String EpochProcess :=
  StateTransition.beforeProcessEpoch state.toCachedBeaconState fun statuses =>
    .ok (participationStatuses state.previousEpochParticipation state.currentEpochParticipation
      (state.validators.map fun validator =>
        isActiveValidator validator state.epochCtx.previousShuffling.epoch) statuses)

/-! ## The attesters of phase0 -/

/-- The members of a committee whose bit is set. -/
def zipIndexesCommitteeBits (indexes : List Nat) (bits : List Bool) : List Nat :=
  ((indexes.zip bits).filter (·.2)).map (·.1)

/-- `getShufflingAtEpoch`, its shuffled part. -/
def getShufflingAtEpoch {β : Type} (state : CachedBeaconStateAllForks β) (epoch : Nat) :
    Except String ShuffledCommittees :=
  if epoch = state.epochCtx.previousShuffling.epoch then .ok state.epochCache.previousCommittees
  else if epoch = state.epochCtx.currentShuffling.epoch then .ok state.epochCache.currentCommittees
  else if epoch = state.epochCtx.nextShuffling.epoch then .ok state.epochCache.nextCommittees
  else
    .error (s!"Requesting slot committee out of range epoch: {epoch}"
      ++ s!" current: {state.epochCtx.currentShuffling.epoch}")

def getBeaconCommittee {β : Type} (state : CachedBeaconStateAllForks β) (slot index : Nat) :
    Except String (List Nat) := do
  let shuffling ← getShufflingAtEpoch state (computeEpochAtSlot slot)
  let slotCommittees := shuffling.committees.getD (slot % SLOTS_PER_EPOCH) []
  match slotCommittees[index]? with
  | some committee => return committee
  | none => throw "EPOCH_CONTEXT_ERROR_COMMITTEE_INDEX_OUT_OF_RANGE"

/-- The inclusion of one attester: the smallest delay, the first of them. -/
def withInclusion (att : PendingAttestation) (status : IAttesterStatus) : IAttesterStatus :=
  if status.proposerIndex.isNone || att.inclusionDelay < status.inclusionDelay then
    { status with proposerIndex := some att.proposerIndex, inclusionDelay := att.inclusionDelay }
  else status

/-- The body of the loop of `statusProcessEpoch`. -/
def statusProcessAttestation {β : Type} (state : CachedBeaconStateAllForks β) (epoch : Nat)
    (sourceFlag targetFlag headFlag : Nat) (actualTargetBlockRoot : Root)
    (statuses : List IAttesterStatus) (att : PendingAttestation) :
    Except String (List IAttesterStatus) := do
  let attVotedTargetRoot := decide (att.data.target.root = actualTargetBlockRoot)
  let attVotedHeadRoot ←
    if att.data.slot < state.slot then do
      let blockRoot ← getBlockRootAtSlot state att.data.slot
      pure (decide (att.data.beaconBlockRoot = blockRoot))
    else pure false
  let committee ← getBeaconCommittee state att.data.slot att.data.index
  let participants := zipIndexesCommitteeBits committee att.aggregationBits
  let statuses :=
    if epoch = state.epochCtx.previousShuffling.epoch then
      participants.foldl (fun statuses p => statuses.modify p (withInclusion att)) statuses
    else statuses
  let flags :=
    if attVotedTargetRoot then
      if attVotedHeadRoot then sourceFlag ||| targetFlag ||| headFlag else sourceFlag ||| targetFlag
    else sourceFlag
  return participants.foldl
    (fun statuses p => statuses.modify p fun status => { status with flags := status.flags ||| flags })
    statuses

def statusProcessEpoch {β : Type} (state : CachedBeaconStateAllForks β)
    (statuses : List IAttesterStatus) (attestations : List PendingAttestation) (epoch : Nat)
    (sourceFlag targetFlag headFlag : Nat) : Except String (List IAttesterStatus) := do
  if attestations.isEmpty then
    return statuses
  let actualTargetBlockRoot ← getBlockRootAtSlot state (computeStartSlotAtEpoch epoch)
  attestations.foldlM
    (statusProcessAttestation state epoch sourceFlag targetFlag headFlag actualTargetBlockRoot)
    statuses

def CachedBeaconStatePhase0.beforeProcessEpoch {β : Type} (state : CachedBeaconStatePhase0 β) :
    Except String EpochProcess :=
  StateTransition.beforeProcessEpoch state.toCachedBeaconState fun statuses => do
    let statuses ← statusProcessEpoch state.toCachedBeaconStateAllForks statuses
      state.previousEpochAttestations state.epochCtx.previousShuffling.epoch
      FLAG_PREV_SOURCE_ATTESTER FLAG_PREV_TARGET_ATTESTER FLAG_PREV_HEAD_ATTESTER
    statusProcessEpoch state.toCachedBeaconStateAllForks statuses
      state.currentEpochAttestations state.epochCtx.currentShuffling.epoch
      FLAG_CURR_SOURCE_ATTESTER FLAG_CURR_TARGET_ATTESTER FLAG_CURR_HEAD_ATTESTER

end Lodestar.StateTransition

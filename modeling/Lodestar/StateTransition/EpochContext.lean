import Lodestar.StateTransition.Util

/-!
# The epoch cache

`cache/epochContext.ts`: the part of `EpochContext` that follows the registry
from one epoch to the next (the active sets, the effective balances, the churn
limit and the exit queue), and `initiateValidatorExit`, which works on the exit
queue alone.
-/

namespace Lodestar.StateTransition

variable [Preset]

/-- `IEpochShuffling`: the epoch and its active indices, in registry order. -/
structure IEpochShuffling where
  epoch : Nat
  activeIndices : List Nat
  deriving DecidableEq

structure EpochContext where
  previousShuffling : IEpochShuffling
  currentShuffling : IEpochShuffling
  nextShuffling : IEpochShuffling
  /-- A `Uint8Array`. -/
  effectiveBalanceIncrements : List Nat
  totalActiveBalanceIncrements : Nat
  churnLimit : Nat
  exitQueueEpoch : Nat
  exitQueueChurn : Nat
  epoch : Nat
  deriving DecidableEq

/-! ## Creation -/

/-- The variables the loop of `createFromState` writes. -/
structure RegistryScan where
  effectiveBalanceIncrements : List Nat
  previousActiveIndices : List Nat := []
  currentActiveIndices : List Nat := []
  nextActiveIndices : List Nat := []
  totalActiveBalanceIncrements : Nat := 0
  exitQueueEpoch : Nat
  exitQueueChurn : Nat := 0

/-- The end of the loop's body: counts an exit epoch that is set. -/
def scanExitEpoch (exitEpoch : WithTop Nat) (queue : Nat × Nat) : Nat × Nat :=
  match setEpoch? exitEpoch with
  | none => queue
  | some exitEpoch =>
    if queue.1 < exitEpoch then (exitEpoch, 1)
    else if exitEpoch = queue.1 then (queue.1, queue.2 + 1)
    else queue

/-- One pass of the loop of `createFromState`. -/
def scanValidator (previousEpoch currentEpoch nextEpoch : Nat) (s : RegistryScan)
    (vi : Validator × Nat) : RegistryScan :=
  let (validator, i) := vi
  let increments := validator.effectiveBalance / EFFECTIVE_BALANCE_INCREMENT % 2 ^ 8
  let queue := scanExitEpoch validator.exitEpoch (s.exitQueueEpoch, s.exitQueueChurn)
  { effectiveBalanceIncrements := s.effectiveBalanceIncrements.set i increments
    previousActiveIndices :=
      if isActiveValidator validator previousEpoch then s.previousActiveIndices ++ [i]
      else s.previousActiveIndices
    currentActiveIndices :=
      if isActiveValidator validator currentEpoch then s.currentActiveIndices ++ [i]
      else s.currentActiveIndices
    nextActiveIndices :=
      if isActiveValidator validator nextEpoch then s.nextActiveIndices ++ [i]
      else s.nextActiveIndices
    totalActiveBalanceIncrements :=
      if isActiveValidator validator currentEpoch then s.totalActiveBalanceIncrements + increments
      else s.totalActiveBalanceIncrements
    exitQueueEpoch := queue.1
    exitQueueChurn := queue.2 }

def getEffectiveBalanceIncrementsWithLen (validatorCount : Nat) : List Nat :=
  List.replicate (1024 * ((validatorCount + 1023) / 1024)) 0

def totalActiveBalanceError : String :=
  "totalActiveBalanceIncrements >= Number.MAX_SAFE_INTEGER. MAX_EFFECTIVE_BALANCE is too low."

/-- The loop of `createFromState` over the registry. -/
def scanRegistry (currentEpoch : Nat) (validators : List Validator) : RegistryScan :=
  let previousEpoch := if currentEpoch = GENESIS_EPOCH then GENESIS_EPOCH else currentEpoch - 1
  validators.zipIdx.foldl (scanValidator previousEpoch currentEpoch (currentEpoch + 1))
    { effectiveBalanceIncrements := getEffectiveBalanceIncrementsWithLen validators.length
      exitQueueEpoch := computeActivationExitEpoch currentEpoch }

/-- `createFromState` reads the slot and the registry of the state. -/
def createFromState (config : ChainConfig) (slot : Nat) (validators : List Validator) :
    Except String EpochContext :=
  let currentEpoch := computeEpochAtSlot slot
  let isGenesis := currentEpoch = GENESIS_EPOCH
  let previousEpoch := if isGenesis then GENESIS_EPOCH else currentEpoch - 1
  let nextEpoch := currentEpoch + 1
  let s := scanRegistry currentEpoch validators
  if MAX_SAFE_INTEGER ≤ s.totalActiveBalanceIncrements then
    .error totalActiveBalanceError
  else
    let currentShuffling := ⟨currentEpoch, s.currentActiveIndices⟩
    let churnLimit := getChurnLimit config currentShuffling.activeIndices.length
    -- a full queue is left for the next epoch
    let queueFull := churnLimit ≤ s.exitQueueChurn
    .ok
      { previousShuffling :=
          if isGenesis then currentShuffling else ⟨previousEpoch, s.previousActiveIndices⟩
        currentShuffling
        nextShuffling := ⟨nextEpoch, s.nextActiveIndices⟩
        effectiveBalanceIncrements := s.effectiveBalanceIncrements
        totalActiveBalanceIncrements :=
          if s.totalActiveBalanceIncrements < 1 then 1 else s.totalActiveBalanceIncrements
        churnLimit
        exitQueueEpoch := if queueFull then s.exitQueueEpoch + 1 else s.exitQueueEpoch
        exitQueueChurn := if queueFull then 0 else s.exitQueueChurn
        epoch := currentEpoch }

/-! ## Epoch transition -/

/-- What `afterProcessEpoch` reads of the `EpochProcess`. -/
structure NextEpoch where
  nextEpochShufflingActiveValidatorIndices : List Nat
  nextEpochTotalActiveBalanceByIncrement : Nat

/-- `afterProcessEpoch`, called with the slot already advanced to `slot`. -/
def EpochContext.afterProcessEpoch (this : EpochContext) (config : ChainConfig) (slot : Nat)
    (epochProcess : NextEpoch) : EpochContext :=
  let currentShuffling := this.nextShuffling
  let currEpoch := currentShuffling.epoch
  let exitQueueEpoch := computeActivationExitEpoch currEpoch
  { this with
    previousShuffling := this.currentShuffling
    currentShuffling
    nextShuffling := ⟨currEpoch + 1, epochProcess.nextEpochShufflingActiveValidatorIndices⟩
    churnLimit := getChurnLimit config currentShuffling.activeIndices.length
    exitQueueEpoch :=
      if this.exitQueueEpoch < exitQueueEpoch then exitQueueEpoch else this.exitQueueEpoch
    exitQueueChurn := if this.exitQueueEpoch < exitQueueEpoch then 0 else this.exitQueueChurn
    totalActiveBalanceIncrements := epochProcess.nextEpochTotalActiveBalanceByIncrement
    epoch := computeEpochAtSlot slot }

/-! ## Exits -/

/-- `initiateValidatorExit` on the validator it is passed, to be written back by the caller. -/
def initiateValidatorExit (config : ChainConfig) (epochCtx : EpochContext)
    (validator : Validator) : EpochContext × Validator :=
  if validator.exitEpoch ≠ FAR_FUTURE_EPOCH then
    (epochCtx, validator)
  else
    let epochCtx :=
      if epochCtx.churnLimit ≤ epochCtx.exitQueueChurn then
        { epochCtx with exitQueueEpoch := epochCtx.exitQueueEpoch + 1, exitQueueChurn := 1 }
      else
        { epochCtx with exitQueueChurn := epochCtx.exitQueueChurn + 1 }
    (epochCtx,
      { validator with
        exitEpoch := (epochCtx.exitQueueEpoch : Nat)
        withdrawableEpoch :=
          ((epochCtx.exitQueueEpoch + config.MIN_VALIDATOR_WITHDRAWABILITY_DELAY : Nat)) })

/-! ## The cached state -/

structure Checkpoint where
  epoch : Nat
  root : Root
  deriving DecidableEq

/-- `CachedBeaconState`; `β` is the type of the balance list. -/
structure CachedBeaconState (β : Type) where
  config : ChainConfig
  slot : Nat
  validators : List Validator
  balanceList : β
  slashings : List Nat
  finalizedCheckpoint : Checkpoint
  inactivityScores : List Nat
  epochCtx : EpochContext

/-- `initiateValidatorExit(state, state.validators[index])`. -/
def CachedBeaconState.initiateValidatorExit {β : Type} (state : CachedBeaconState β)
    (index : Nat) : CachedBeaconState β :=
  match state.validators[index]? with
  | none => state
  | some validator =>
    let (epochCtx, validator) :=
      StateTransition.initiateValidatorExit state.config state.epochCtx validator
    { state with validators := state.validators.set index validator, epochCtx }

end Lodestar.StateTransition

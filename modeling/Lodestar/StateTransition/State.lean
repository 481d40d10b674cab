import Lodestar.StateTransition.EpochContext

/-!
# The state of the epoch transition

`CachedBeaconState` with the fields of the three forks that the epoch
transition and the processing of attestations read and write, and the part of
`EpochContext` that does not follow the registry alone (`EpochCache`).
-/

namespace Lodestar.StateTransition

variable [Preset]

/-! ## The rest of the epoch cache -/

/-- The shuffled part of an `IEpochShuffling`; the committees are by index, by slot. -/
structure ShuffledCommittees where
  shuffling : List Nat
  committees : List (List (List Nat))
  committeesPerSlot : Nat
  deriving DecidableEq

/-- `SyncCommitteeCache`; `SyncCommitteeCacheEmpty` is `none`. -/
structure SyncCommitteeCache where
  validatorIndices : List Nat
  validatorIndexMap : List (Nat × List Nat)
  deriving DecidableEq

/-- The fields of `EpochContext` that `StateTransition.EpochContext` leaves out. -/
structure EpochCache where
  previousCommittees : ShuffledCommittees
  currentCommittees : ShuffledCommittees
  nextCommittees : ShuffledCommittees
  /-- By slot of the current epoch. -/
  proposers : List Nat
  syncParticipantReward : Nat
  baseRewardPerIncrement : Nat
  currentSyncCommitteeIndexed : Option SyncCommitteeCache
  nextSyncCommitteeIndexed : Option SyncCommitteeCache
  syncPeriod : Nat
  deriving DecidableEq

/-! ## The forks' states -/

abbrev JUSTIFICATION_BITS_LENGTH : Nat := 4

structure CachedBeaconStateAllForks (β : Type) extends CachedBeaconState β where
  blockRoots : Vector Root SLOTS_PER_HISTORICAL_ROOT
  randaoMixes : Vector Root EPOCHS_PER_HISTORICAL_VECTOR
  justificationBits : Vector Bool JUSTIFICATION_BITS_LENGTH
  previousJustifiedCheckpoint : Checkpoint
  currentJustifiedCheckpoint : Checkpoint
  epochCache : EpochCache

structure AttestationData where
  slot : Nat
  index : Nat
  beaconBlockRoot : Root
  source : Checkpoint
  target : Checkpoint
  deriving DecidableEq

structure PendingAttestation where
  aggregationBits : List Bool
  data : AttestationData
  inclusionDelay : Nat
  proposerIndex : Nat
  deriving DecidableEq

structure CachedBeaconStatePhase0 (β : Type) extends CachedBeaconStateAllForks β where
  previousEpochAttestations : List PendingAttestation
  currentEpochAttestations : List PendingAttestation

/-- `ParticipationFlags`, a byte. -/
abbrev ParticipationFlags := BitVec 8

structure SyncCommittee where
  pubkeys : List BLSPubkey
  aggregatePubkey : BLSPubkey
  deriving DecidableEq

structure CachedBeaconStateAltair (β : Type) extends CachedBeaconStateAllForks β where
  previousEpochParticipation : List ParticipationFlags
  currentEpochParticipation : List ParticipationFlags
  currentSyncCommittee : SyncCommittee
  nextSyncCommittee : SyncCommittee

/-! ## The cache and the registry -/

/-- What the rewards of both forks need of the cache: it is at the state's epoch, after genesis,
and its effective balances are those of the registry, which are whole increments. -/
structure CacheAgrees {β : Type} (state : CachedBeaconState β) : Prop where
  epoch_pos : 0 < computeEpochAtSlot state.slot
  currentEpoch : state.epochCtx.currentShuffling.epoch = computeEpochAtSlot state.slot
  previousEpoch : state.epochCtx.previousShuffling.epoch = computeEpochAtSlot state.slot - 1
  effectiveBalance : ∀ {i : Nat} {validator : Validator}, state.validators[i]? = some validator →
    validator.effectiveBalance
      = state.epochCtx.effectiveBalanceIncrements.getD i 0 * EFFECTIVE_BALANCE_INCREMENT

/-! ## Block roots -/

/-- `getBlockRootAtSlot`, from the slot of the state and its block roots. -/
def getBlockRootAtSlot {β : Type} (state : CachedBeaconStateAllForks β) (slot : Nat) :
    Except String Root :=
  if state.slot ≤ slot then
    .error s!"Can only get block root in the past currentSlot={state.slot} slot={slot}"
  else if slot + SLOTS_PER_HISTORICAL_ROOT < state.slot then
    .error s!"Cannot get block root more than {SLOTS_PER_HISTORICAL_ROOT} in the past"
  else
    .ok (state.blockRoots.get
      ⟨slot % SLOTS_PER_HISTORICAL_ROOT, Nat.mod_lt _ Preset.SLOTS_PER_HISTORICAL_ROOT_pos⟩)

def getBlockRoot {β : Type} (state : CachedBeaconStateAllForks β) (epoch : Nat) :
    Except String Root :=
  getBlockRootAtSlot state (computeStartSlotAtEpoch epoch)

end Lodestar.StateTransition

import Lodestar.Base.Tally
import Lodestar.StateTransition.RewardsSpecPhase0

/-!
# Attestations of an altair block

`altair/block/processAttestation.ts`, with `validateAttestation` of phase0. The
flags of a block are collected in one map for each epoch, are written once at
the end, in one of two ways, and the proposer is paid once; the spec writes
every flag and pays for every attestation as it comes.
-/

namespace Lodestar.StateTransition

open Std (TreeMap)
open Lodestar.Base

section

variable [Preset] {β : Type}

/-! ## Attestations -/

structure Attestation where
  aggregationBits : List Bool
  data : AttestationData
  signature : BitVec 768
  deriving DecidableEq

abbrev PROPOSER_REWARD_DOMINATOR : Nat :=
  (WEIGHT_DENOMINATOR - PROPOSER_WEIGHT) * WEIGHT_DENOMINATOR / PROPOSER_WEIGHT

abbrev TIMELY_SOURCE : ParticipationFlags := 1 <<< TIMELY_SOURCE_FLAG_INDEX
abbrev TIMELY_TARGET : ParticipationFlags := 1 <<< TIMELY_TARGET_FLAG_INDEX
abbrev TIMELY_HEAD : ParticipationFlags := 1 <<< TIMELY_HEAD_FLAG_INDEX

def getCommitteeCountPerSlot (state : CachedBeaconStateAllForks β) (epoch : Nat) :
    Except String Nat := do
  let shuffling ← getShufflingAtEpoch state epoch
  return shuffling.committeesPerSlot

def getBeaconProposer (state : CachedBeaconStateAllForks β) (slot : Nat) : Except String Nat :=
  let epoch := computeEpochAtSlot slot
  if epoch ≠ state.epochCtx.currentShuffling.epoch then
    .error (s!"Requesting beacon proposer for different epoch current shuffling: {epoch}"
      ++ s!" != {state.epochCtx.currentShuffling.epoch}")
  else
    .ok (state.epochCache.proposers.getD (slot % SLOTS_PER_EPOCH) 0)

def getAttestingIndices (state : CachedBeaconStateAllForks β) (data : AttestationData)
    (bits : List Bool) : Except String (List Nat) := do
  let committeeIndices ← getBeaconCommittee state data.slot data.index
  return zipIndexesCommitteeBits committeeIndices bits

def checkpointToStr (checkpoint : Checkpoint) : String :=
  s!"0x{checkpoint.root.toHex}:{checkpoint.epoch}"

def validateAttestation (state : CachedBeaconStateAllForks β) (attestation : Attestation) :
    Except String Unit := do
  let slot := state.slot
  let data := attestation.data
  let computedEpoch := computeEpochAtSlot data.slot
  let committeeCount ← getCommitteeCountPerSlot state computedEpoch
  if ¬ data.index < committeeCount then
    throw ("Attestation committee index not within current committee count: "
      ++ s!"committeeIndex={data.index} committeeCount={committeeCount}")
  if ¬ (data.target.epoch = state.epochCtx.previousShuffling.epoch
      ∨ data.target.epoch = state.epochCtx.currentShuffling.epoch) then
    throw ("Attestation target epoch not in previous or current epoch: "
      ++ s!"targetEpoch={data.target.epoch} "
      ++ s!"currentEpoch={state.epochCtx.currentShuffling.epoch}")
  if data.target.epoch ≠ computedEpoch then
    throw ("Attestation target epoch does not match epoch computed from slot: "
      ++ s!"targetEpoch={data.target.epoch} computedEpoch={computedEpoch}")
  if ¬ (data.slot + MIN_ATTESTATION_INCLUSION_DELAY ≤ slot ∧ slot ≤ data.slot + SLOTS_PER_EPOCH) then
    throw ("Attestation slot not within inclusion window: "
      ++ s!"slot={data.slot} window={data.slot + MIN_ATTESTATION_INCLUSION_DELAY}"
      ++ s!"..{data.slot + SLOTS_PER_EPOCH}")
  let committee ← getBeaconCommittee state data.slot data.index
  if attestation.aggregationBits.length ≠ committee.length then
    throw ("Attestation aggregation bits length does not match committee length: "
      ++ s!"aggregationBitsLength={attestation.aggregationBits.length} "
      ++ s!"committeeLength={committee.length}")

/-! ## Block roots -/

/-- `RootCache`, its two maps. -/
structure RootCache where
  blockRootEpochCache : TreeMap Nat Root
  blockRootSlotCache : TreeMap Nat Root

/-- A read through a map: what is not there is looked up and kept. -/
def readThrough (read : Nat → Except String Root) (cache : TreeMap Nat Root) (k : Nat) :
    Except String (Root × TreeMap Nat Root) :=
  match cache[k]? with
  | some root => .ok (root, cache)
  | none => (read k).map fun root => (root, cache.insert k root)

def RootCache.getBlockRoot (cache : RootCache) (state : CachedBeaconStateAllForks β) (epoch : Nat) :
    Except String (Root × RootCache) :=
  (readThrough (StateTransition.getBlockRoot state) cache.blockRootEpochCache epoch).map
    fun (root, blockRootEpochCache) => (root, { cache with blockRootEpochCache })

def RootCache.getBlockRootAtSlot (cache : RootCache) (state : CachedBeaconStateAllForks β)
    (slot : Nat) : Except String (Root × RootCache) :=
  (readThrough (StateTransition.getBlockRootAtSlot state) cache.blockRootSlotCache slot).map
    fun (root, blockRootSlotCache) => (root, { cache with blockRootSlotCache })

def getAttestationParticipationStatus (state : CachedBeaconStateAllForks β) (data : AttestationData)
    (inclusionDelay : Nat) (rootCache : RootCache) :
    Except String (ParticipationFlags × RootCache) := do
  let justifiedCheckpoint :=
    if data.target.epoch = state.epochCtx.currentShuffling.epoch then
      state.currentJustifiedCheckpoint
    else state.previousJustifiedCheckpoint
  -- the source vote always matches the justified checkpoint
  if data.source ≠ justifiedCheckpoint then
    throw ("Attestation source does not equal justified checkpoint: "
      ++ s!"source={checkpointToStr data.source} "
      ++ s!"justifiedCheckpoint={checkpointToStr justifiedCheckpoint}")
  let (targetRoot, rootCache) ← rootCache.getBlockRoot state data.target.epoch
  let isMatchingTarget := decide (data.target.root = targetRoot)
  -- a timely head is only set if the target is also matching
  let (isMatchingHead, rootCache) ←
    if isMatchingTarget then
      (rootCache.getBlockRootAtSlot state data.slot).map fun (headRoot, rootCache) =>
        (decide (data.beaconBlockRoot = headRoot), rootCache)
    else .ok (false, rootCache)
  let source := if inclusionDelay ≤ intSqrt SLOTS_PER_EPOCH then TIMELY_SOURCE else 0
  let target := if isMatchingTarget ∧ inclusionDelay ≤ SLOTS_PER_EPOCH then TIMELY_TARGET else 0
  let head :=
    if isMatchingHead ∧ inclusionDelay = MIN_ATTESTATION_INCLUSION_DELAY then TIMELY_HEAD else 0
  return (source ||| target ||| head, rootCache)

/-! ## Participation -/

/-- `CachedEpochParticipation`: the cached vector and the tree of the state. -/
structure CachedEpochParticipation where
  persistent : List ParticipationFlags
  tree : List ParticipationFlags

namespace CachedEpochParticipation

/-- The participation of a state, cached. -/
def ofList (flags : List ParticipationFlags) : CachedEpochParticipation :=
  ⟨flags, flags⟩

/-- `get`; every attester is in the list. -/
def get (epochParticipation : CachedEpochParticipation) (index : Nat) : ParticipationFlags :=
  epochParticipation.persistent.getD index 0

def set (epochParticipation : CachedEpochParticipation) (index : Nat) (value : ParticipationFlags) :
    CachedEpochParticipation where
  persistent := epochParticipation.persistent.set index value
  tree := epochParticipation.tree.set index value

/-- `updateAllStatus`: the tree is built anew. -/
def updateAllStatus (_ : CachedEpochParticipation) (data : List ParticipationFlags) :
    CachedEpochParticipation where
  persistent := data
  tree := data

end CachedEpochParticipation

/-- `updateEpochParticipants`; many flags are written in batch. -/
def updateEpochParticipants (epochStatuses : TreeMap Nat ParticipationFlags)
    (epochParticipation : CachedEpochParticipation) (numActiveValidators : Nat) :
    CachedEpochParticipation :=
  if numActiveValidators ≤ epochStatuses.size * (2 * SLOTS_PER_EPOCH) then
    let transientVector := epochStatuses.toList.foldl
      (fun vector (index, flags) => vector.set index flags) epochParticipation.persistent
    epochParticipation.updateAllStatus transientVector
  else
    epochStatuses.toList.foldl
      (fun epochParticipation (index, flags) => epochParticipation.set index flags)
      epochParticipation

/-! ## Processing -/

/-- The weight of the flags that are set. -/
def totalWeight (flagsNewSet : ParticipationFlags) : Nat :=
  (if flagsNewSet &&& TIMELY_SOURCE = TIMELY_SOURCE then TIMELY_SOURCE_WEIGHT else 0)
    + (if flagsNewSet &&& TIMELY_TARGET = TIMELY_TARGET then TIMELY_TARGET_WEIGHT else 0)
    + (if flagsNewSet &&& TIMELY_HEAD = TIMELY_HEAD then TIMELY_HEAD_WEIGHT else 0)

/-- The body of the loop over the attesters of one attestation: their statuses, and
`totalBalanceIncrementsWithWeight`. -/
def attesterStep (epochParticipation : CachedEpochParticipation)
    (effectiveBalanceIncrements : List Nat) (flagsAttestation : ParticipationFlags)
    (loop : TreeMap Nat ParticipationFlags × Nat) (index : Nat) :
    TreeMap Nat ParticipationFlags × Nat :=
  let (epochStatuses, totalBalanceIncrementsWithWeight) := loop
  let flags := epochStatuses[index]?.getD (epochParticipation.get index)
  let newFlags := flagsAttestation ||| flags
  let flagsNewSet := ~~~flags &&& flagsAttestation
  (epochStatuses.insert index newFlags,
    if 0 < totalWeight flagsNewSet then
      totalBalanceIncrementsWithWeight
        + effectiveBalanceIncrements.getD index 0 * totalWeight flagsNewSet
    else totalBalanceIncrementsWithWeight)

/-- The variables the loop over the attestations writes. -/
structure AttestationsLoop where
  rootCache : RootCache
  proposerReward : Nat
  previousEpochStatuses : TreeMap Nat ParticipationFlags
  currentEpochStatuses : TreeMap Nat ParticipationFlags

def invalidAttestationSignatureError : String := "Attestation signature is not valid"

/-- The body of the loop over the attestations; `verifySignatureSet` is the check of the signature
set of an attestation with its attesters. -/
def processAttestationStep (state : CachedBeaconStateAltair (List Nat)) (verifySignature : Bool)
    (verifySignatureSet : Attestation → List Nat → Bool) (loop : AttestationsLoop)
    (attestation : Attestation) : Except String AttestationsLoop := do
  let data := attestation.data
  validateAttestation state.toCachedBeaconStateAllForks attestation
  let attestingIndices ←
    getAttestingIndices state.toCachedBeaconStateAllForks data attestation.aggregationBits
  if verifySignature ∧ verifySignatureSet attestation attestingIndices = false then
    throw invalidAttestationSignatureError
  let isCurrent := decide (data.target.epoch = state.epochCtx.currentShuffling.epoch)
  let (flagsAttestation, rootCache) ← getAttestationParticipationStatus
    state.toCachedBeaconStateAllForks data (state.slot - data.slot) loop.rootCache
  let (epochStatuses, totalIncrements) := attestingIndices.foldl
    (attesterStep
      (.ofList (if isCurrent then state.currentEpochParticipation else state.previousEpochParticipation))
      state.epochCtx.effectiveBalanceIncrements flagsAttestation)
    (if isCurrent then loop.currentEpochStatuses else loop.previousEpochStatuses, 0)
  let proposerRewardNumerator := totalIncrements * state.epochCache.baseRewardPerIncrement
  return {
    rootCache
    proposerReward := loop.proposerReward + proposerRewardNumerator / PROPOSER_REWARD_DOMINATOR
    previousEpochStatuses := if isCurrent then loop.previousEpochStatuses else epochStatuses
    currentEpochStatuses := if isCurrent then epochStatuses else loop.currentEpochStatuses }

def increaseBalance (balanceList : List Nat) (index delta : Nat) : List Nat :=
  balanceList.modify index (· + delta)

def processAttestations (state : CachedBeaconStateAltair (List Nat))
    (attestations : List Attestation) (verifySignature : Bool)
    (verifySignatureSet : Attestation → List Nat → Bool) :
    Except String (CachedBeaconStateAltair (List Nat)) := do
  let loop ← attestations.foldlM (processAttestationStep state verifySignature verifySignatureSet)
    { rootCache := ⟨∅, ∅⟩, proposerReward := 0, previousEpochStatuses := ∅, currentEpochStatuses := ∅ }
  let proposer ← getBeaconProposer state.toCachedBeaconStateAllForks state.slot
  return { state with
    previousEpochParticipation := (updateEpochParticipants loop.previousEpochStatuses
      (.ofList state.previousEpochParticipation)
      state.epochCtx.previousShuffling.activeIndices.length).persistent
    currentEpochParticipation := (updateEpochParticipants loop.currentEpochStatuses
      (.ofList state.currentEpochParticipation)
      state.epochCtx.currentShuffling.activeIndices.length).persistent
    balanceList := increaseBalance state.balanceList proposer loop.proposerReward }

/-! ## The spec, one attestation after the other -/

namespace Spec

/-- `get_attestation_participation_flag_indices`; the source of a valid attestation matches. -/
def getAttestationParticipationFlagIndices (state : CachedBeaconStateAllForks β)
    (data : AttestationData) (inclusionDelay : Nat) : List Nat :=
  let isMatchingTarget := isBlockRoot (getBlockRoot state data.target.epoch) data.target.root
  let isMatchingHead :=
    isMatchingTarget && isBlockRoot (getBlockRootAtSlot state data.slot) data.beaconBlockRoot
  (if inclusionDelay ≤ Nat.sqrt SLOTS_PER_EPOCH then [TIMELY_SOURCE_FLAG_INDEX] else [])
    ++ (if isMatchingTarget ∧ inclusionDelay ≤ SLOTS_PER_EPOCH then [TIMELY_TARGET_FLAG_INDEX]
      else [])
    ++ (if isMatchingHead ∧ inclusionDelay = MIN_ATTESTATION_INCLUSION_DELAY then
        [TIMELY_HEAD_FLAG_INDEX]
      else [])

/-- `add_flag`. -/
def addFlag (flags : ParticipationFlags) (flagIndex : Nat) : ParticipationFlags :=
  flags ||| 1 <<< flagIndex

/-- One flag of one attester: the flags, and the numerator of the proposer's reward. -/
def setIfNew (flagIndices : List Nat) (baseReward : Nat) (flags : ParticipationFlags × Nat)
    (weightAt : Nat × Nat) : ParticipationFlags × Nat :=
  let (weight, flagIndex) := weightAt
  if flagIndex ∈ flagIndices ∧ hasFlag flags.1 flagIndex = false then
    (addFlag flags.1 flagIndex, flags.2 + baseReward * weight)
  else flags

/-- One attester. -/
def processAttester (state : CachedBeaconStateAltair (List Nat)) (flagIndices : List Nat)
    (loop : List ParticipationFlags × Nat) (index : Nat) : List ParticipationFlags × Nat :=
  let (epochParticipation, proposerRewardNumerator) := loop
  let baseReward := getBaseReward state.validators (computeEpochAtSlot state.slot) index
  let (flags, proposerRewardNumerator) := PARTICIPATION_FLAG_WEIGHTS.zipIdx.foldl
    (setIfNew flagIndices baseReward) (epochParticipation.getD index 0, proposerRewardNumerator)
  (epochParticipation.set index flags, proposerRewardNumerator)

/-- `process_attestation` of altair, for an attestation that is valid; `proposer` is the block's. -/
def processAttestation (proposer : Nat) (state : CachedBeaconStateAltair (List Nat))
    (attestation : Attestation) : CachedBeaconStateAltair (List Nat) :=
  let data := attestation.data
  let flagIndices := getAttestationParticipationFlagIndices state.toCachedBeaconStateAllForks data
    (state.slot - data.slot)
  let attestingIndices :=
    match getBeaconCommittee state.toCachedBeaconStateAllForks data.slot data.index with
    | .ok committee => zipIndexesCommitteeBits committee attestation.aggregationBits
    | .error _ => []
  let isCurrent := decide (data.target.epoch = computeEpochAtSlot state.slot)
  let (epochParticipation, proposerRewardNumerator) := attestingIndices.foldl
    (processAttester state flagIndices)
    (if isCurrent then state.currentEpochParticipation else state.previousEpochParticipation, 0)
  let proposerRewardDenominator :=
    (WEIGHT_DENOMINATOR - PROPOSER_WEIGHT) * WEIGHT_DENOMINATOR / PROPOSER_WEIGHT
  { state with
    previousEpochParticipation :=
      if isCurrent then state.previousEpochParticipation else epochParticipation
    currentEpochParticipation :=
      if isCurrent then epochParticipation else state.currentEpochParticipation
    balanceList := increaseBalance state.balanceList proposer
      (proposerRewardNumerator / proposerRewardDenominator) }

end Spec

/-! ## Flags of one attester -/

/-- The mask of three flags. -/
def flagsMask (source target head : Bool) : ParticipationFlags :=
  (if source then TIMELY_SOURCE else 0) ||| (if target then TIMELY_TARGET else 0)
    ||| (if head then TIMELY_HEAD else 0)

/-- The indices of three flags. -/
def flagsIndices (source target head : Bool) : List Nat :=
  (if source then [TIMELY_SOURCE_FLAG_INDEX] else [])
    ++ (if target then [TIMELY_TARGET_FLAG_INDEX] else [])
    ++ (if head then [TIMELY_HEAD_FLAG_INDEX] else [])

omit [Preset] in
theorem foldl_setIfNew_linear (flagIndices : List Nat) (baseReward : Nat)
    (weights : List (Nat × Nat)) (flags : ParticipationFlags) (numerator weight : Nat) :
    weights.foldl (Spec.setIfNew flagIndices baseReward) (flags, numerator + baseReward * weight)
      = ((weights.foldl (Spec.setIfNew flagIndices 1) (flags, weight)).1,
        numerator + baseReward * (weights.foldl (Spec.setIfNew flagIndices 1) (flags, weight)).2) := by
  induction weights generalizing flags weight with
  | nil => rfl
  | cons entry weights ih =>
    rw [List.foldl_cons, List.foldl_cons]
    unfold Spec.setIfNew
    dsimp only
    split
    · rw [Nat.add_assoc, ← Nat.mul_add, Nat.one_mul]
      exact ih _ _
    · exact ih _ _

omit [Preset] in
theorem foldl_setIfNew_one (source target head : Bool) (flags : ParticipationFlags) :
    PARTICIPATION_FLAG_WEIGHTS.zipIdx.foldl (Spec.setIfNew (flagsIndices source target head) 1)
        (flags, 0)
      = (flagsMask source target head ||| flags,
        totalWeight (~~~flags &&& flagsMask source target head)) := by
  revert source target head flags
  decide +kernel

omit [Preset] in
theorem foldl_setIfNew (source target head : Bool) (baseReward : Nat) (flags : ParticipationFlags)
    (numerator : Nat) :
    PARTICIPATION_FLAG_WEIGHTS.zipIdx.foldl
        (Spec.setIfNew (flagsIndices source target head) baseReward) (flags, numerator)
      = (flagsMask source target head ||| flags,
        numerator + baseReward * totalWeight (~~~flags &&& flagsMask source target head)) := by
  have h := foldl_setIfNew_linear (flagsIndices source target head) baseReward
    PARTICIPATION_FLAG_WEIGHTS.zipIdx flags numerator 0
  rwa [Nat.mul_zero, Nat.add_zero, foldl_setIfNew_one] at h

/-! ## Statuses over participation -/

/-- The participation with the statuses written into it. -/
def merged (statuses : TreeMap Nat ParticipationFlags) (participation : List ParticipationFlags) :
    List ParticipationFlags :=
  participation.mapIdx fun i flags => statuses[i]?.getD flags

variable {statuses : TreeMap Nat ParticipationFlags} {participation : List ParticipationFlags}

omit [Preset] in
theorem getElem?_merged (i : Nat) :
    (merged statuses participation)[i]? = participation[i]?.map fun flags => statuses[i]?.getD flags :=
  List.getElem?_mapIdx

omit [Preset] in
theorem merged_empty : merged ∅ participation = participation := by
  refine List.ext_getElem? fun i => ?_
  rw [getElem?_merged]
  simp

omit [Preset] in
theorem merged_insert {index : Nat} (flags : ParticipationFlags)
    (hindex : index < participation.length) :
    merged (statuses.insert index flags) participation
      = (merged statuses participation).set index flags := by
  refine List.ext_getElem? fun i => ?_
  rw [getElem?_merged, List.getElem?_set, getElem?_merged, TreeMap.getElem?_insert]
  by_cases hi : index = i
  · subst hi
    rw [if_pos Std.ReflOrd.compare_self, if_pos rfl, if_pos (by simpa [merged] using hindex),
      List.getElem?_eq_getElem hindex]
    rfl
  · rw [if_neg fun h => hi (Std.LawfulEqOrd.eq_of_compare h), if_neg hi]

omit [Preset] in
theorem foldl_set_toList :
    statuses.toList.foldl (fun vector entry => vector.set entry.1 entry.2) participation
      = merged statuses participation := by
  have hvalue : ∀ i flags, (i, flags) ∈ statuses.toList → statuses[i]? = some flags :=
    fun i flags h => TreeMap.mem_toList_iff_getElem?_eq_some.mp h
  refine List.ext_getElem? fun i => ?_
  rw [getElem?_foldl_set (fun i => statuses[i]?) _ hvalue, getElem?_merged]
  congr 1
  funext flags
  split
  · rfl
  · rename_i hnot
    cases hs : statuses[i]? with
    | none => rfl
    | some value =>
      exact absurd (List.mem_map_of_mem (f := (·.1))
        (TreeMap.mem_toList_iff_getElem?_eq_some.mpr hs)) hnot

theorem updateEpochParticipants_eq (numActiveValidators : Nat) :
    updateEpochParticipants statuses (.ofList participation) numActiveValidators
      = .ofList (merged statuses participation) := by
  unfold updateEpochParticipants
  split
  · unfold CachedEpochParticipation.updateAllStatus
    rw [← foldl_set_toList]
    rfl
  · have hset : ∀ (entries : List (Nat × ParticipationFlags)) (flags : List ParticipationFlags),
        entries.foldl (fun epochParticipation (index, flags) =>
          epochParticipation.set index flags) (CachedEpochParticipation.ofList flags)
          = .ofList (entries.foldl (fun vector entry => vector.set entry.1 entry.2) flags) := by
      intro entries
      induction entries with
      | nil => exact fun _ => rfl
      | cons entry entries ih => exact fun flags => ih (flags.set entry.1 entry.2)
    rw [hset, foldl_set_toList]

/-! ## One attestation -/

/-- What processing attestations reads of the cache, as the state has it. -/
structure AttestationCacheAgrees (state : CachedBeaconStateAltair β) : Prop where
  currentEpoch : state.epochCtx.currentShuffling.epoch = computeEpochAtSlot state.slot
  baseRewardPerIncrement : state.epochCache.baseRewardPerIncrement
    = Spec.getBaseRewardPerIncrement state.validators (computeEpochAtSlot state.slot)
  effectiveBalance : ∀ i < state.validators.length,
    Spec.getEffectiveBalance state.validators i / EFFECTIVE_BALANCE_INCREMENT
      = state.epochCtx.effectiveBalanceIncrements.getD i 0
  previousLength : state.previousEpochParticipation.length = state.validators.length
  currentLength : state.currentEpochParticipation.length = state.validators.length
  committees : ∀ shuffled ∈ [state.epochCache.previousCommittees,
      state.epochCache.currentCommittees, state.epochCache.nextCommittees],
    ∀ slotCommittees ∈ shuffled.committees, ∀ committee ∈ slotCommittees, ∀ i ∈ committee,
      i < state.validators.length

theorem mem_of_getBeaconCommittee {state : CachedBeaconStateAllForks β} {slot index : Nat}
    {committee : List Nat} (h : getBeaconCommittee state slot index = .ok committee) :
    ∃ shuffled ∈ [state.epochCache.previousCommittees, state.epochCache.currentCommittees,
      state.epochCache.nextCommittees],
      ∃ slotCommittees ∈ shuffled.committees, committee ∈ slotCommittees := by
  unfold getBeaconCommittee at h
  obtain ⟨shuffled, hshuffled, h⟩ := eq_ok_of_bind h
  refine ⟨shuffled, ?_, shuffled.committees.getD (slot % SLOTS_PER_EPOCH) [], ?_, ?_⟩
  · unfold getShufflingAtEpoch at hshuffled
    split at hshuffled
    · simp [← Except.ok.inj hshuffled]
    · split at hshuffled
      · simp [← Except.ok.inj hshuffled]
      · split at hshuffled
        · simp [← Except.ok.inj hshuffled]
        · cases hshuffled
  · rw [List.getD_eq_getElem?_getD]
    cases hslot : shuffled.committees[slot % SLOTS_PER_EPOCH]? with
    | some slotCommittees => exact List.mem_of_getElem? hslot
    | none =>
      rw [List.getD_eq_getElem?_getD, hslot] at h
      cases h
  · dsimp only at h
    split at h
    · rename_i found hfound
      cases h
      exact List.mem_of_getElem? hfound
    · cases h

variable {state : CachedBeaconStateAltair (List Nat)}

/-- One attester: the map and the increments against the participation and the numerator. -/
theorem attesterStep_spec (hagree : AttestationCacheAgrees state)
    (hlen : participation.length = state.validators.length) (source target head : Bool)
    (totalIncrements : Nat) {index : Nat} (hindex : index < state.validators.length) :
    Spec.processAttester state (flagsIndices source target head)
        (merged statuses participation, totalIncrements * state.epochCache.baseRewardPerIncrement)
        index
      = let next := attesterStep (.ofList participation) state.epochCtx.effectiveBalanceIncrements
          (flagsMask source target head) (statuses, totalIncrements) index
        (merged next.1 participation, next.2 * state.epochCache.baseRewardPerIncrement) := by
  have hindex' : index < participation.length := hlen ▸ hindex
  have hflags : (merged statuses participation).getD index 0
      = statuses[index]?.getD (participation.getD index 0) := by
    rw [List.getD_eq_getElem?_getD, List.getD_eq_getElem?_getD, getElem?_merged,
      List.getElem?_eq_getElem hindex']
    rfl
  have hbase : Spec.getBaseReward state.validators (computeEpochAtSlot state.slot) index
      = state.epochCtx.effectiveBalanceIncrements.getD index 0
        * state.epochCache.baseRewardPerIncrement := by
    rw [hagree.baseRewardPerIncrement, ← hagree.effectiveBalance index hindex]
    rfl
  unfold Spec.processAttester attesterStep CachedEpochParticipation.get
    CachedEpochParticipation.ofList
  dsimp only
  rw [foldl_setIfNew, hflags, hbase, merged_insert _ hindex']
  congr 1
  split
  · ring
  · rename_i hzero
    rw [Nat.eq_zero_of_not_pos hzero, Nat.mul_zero, Nat.add_zero]

theorem foldl_attesterStep_spec (hagree : AttestationCacheAgrees state)
    (hlen : participation.length = state.validators.length) (source target head : Bool)
    (totalIncrements : Nat) {attesters : List Nat}
    (hattesters : ∀ i ∈ attesters, i < state.validators.length) :
    attesters.foldl (Spec.processAttester state (flagsIndices source target head))
        (merged statuses participation, totalIncrements * state.epochCache.baseRewardPerIncrement)
      = let next := attesters.foldl
          (attesterStep (.ofList participation) state.epochCtx.effectiveBalanceIncrements
            (flagsMask source target head)) (statuses, totalIncrements)
        (merged next.1 participation, next.2 * state.epochCache.baseRewardPerIncrement) := by
  induction attesters generalizing statuses totalIncrements with
  | nil => rfl
  | cons index attesters ih =>
    rw [List.foldl_cons, attesterStep_spec hagree hlen _ _ _ _ (hattesters index List.mem_cons_self)]
    exact ih _ fun i hi => hattesters i (List.mem_cons_of_mem _ hi)

/-! ## The root cache -/

omit [Preset] in
theorem readThrough_ok {read : Nat → Except String Root} {cache : TreeMap Nat Root}
    (hcache : ∀ k root, cache[k]? = some root → read k = .ok root) {k : Nat} {root : Root}
    (hread : read k = .ok root) :
    ∃ cache', readThrough read cache k = .ok (root, cache') ∧
      ∀ k root, cache'[k]? = some root → read k = .ok root := by
  unfold readThrough
  cases hk : cache[k]? with
  | some cached =>
    have hsame : cached = root := Except.ok.inj ((hcache k cached hk).symm.trans hread)
    exact ⟨cache, by rw [hsame], hcache⟩
  | none =>
    refine ⟨cache.insert k root, by rw [hread]; rfl, fun k' root' hk' => ?_⟩
    rw [TreeMap.getElem?_insert] at hk'
    split at hk'
    · rename_i heq
      rw [← Std.LawfulEqOrd.eq_of_compare heq, hread, Option.some.inj hk']
    · exact hcache k' root' hk'

/-- The cache holds what the state has. -/
structure RootCache.Reads (cache : RootCache) (state : CachedBeaconStateAllForks β) : Prop where
  epoch : ∀ (epoch : Nat) (root : Root), cache.blockRootEpochCache[epoch]? = some root →
    StateTransition.getBlockRoot state epoch = .ok root
  slot : ∀ (slot : Nat) (root : Root), cache.blockRootSlotCache[slot]? = some root →
    StateTransition.getBlockRootAtSlot state slot = .ok root

omit [Preset] in
theorem RootCache.reads_empty [Preset] (state : CachedBeaconStateAllForks β) :
    RootCache.Reads ⟨∅, ∅⟩ state where
  epoch epoch root h := by simp at h
  slot slot root h := by simp at h

variable {cache : RootCache}

theorem RootCache.Reads.getBlockRoot_ok {state : CachedBeaconStateAllForks β}
    (h : cache.Reads state) {epoch : Nat} {root : Root}
    (hroot : StateTransition.getBlockRoot state epoch = .ok root) :
    ∃ cache', cache.getBlockRoot state epoch = .ok (root, cache') ∧ cache'.Reads state := by
  obtain ⟨epochCache, hread, hcache⟩ := readThrough_ok h.epoch hroot
  refine ⟨{ cache with blockRootEpochCache := epochCache }, ?_, ⟨hcache, h.slot⟩⟩
  rw [RootCache.getBlockRoot, hread]
  rfl

theorem RootCache.Reads.getBlockRootAtSlot_ok {state : CachedBeaconStateAllForks β}
    (h : cache.Reads state) {slot : Nat} {root : Root}
    (hroot : StateTransition.getBlockRootAtSlot state slot = .ok root) :
    ∃ cache', cache.getBlockRootAtSlot state slot = .ok (root, cache') ∧ cache'.Reads state := by
  obtain ⟨slotCache, hread, hcache⟩ := readThrough_ok h.slot hroot
  refine ⟨{ cache with blockRootSlotCache := slotCache }, ?_, ⟨h.epoch, hcache⟩⟩
  rw [RootCache.getBlockRootAtSlot, hread]
  rfl

/-! ## Attestations that pass -/

/-- The attestation passes the checks on the state, and the block roots it is compared with are
there. -/
structure Passes (state : CachedBeaconStateAltair β) (verifySignature : Bool)
    (verifySignatureSet : Attestation → List Nat → Bool) (attestation : Attestation) : Prop where
  valid : validateAttestation state.toCachedBeaconStateAllForks attestation = .ok ()
  signature : ∀ attestingIndices : List Nat,
    getAttestingIndices state.toCachedBeaconStateAllForks attestation.data
        attestation.aggregationBits = .ok attestingIndices →
      ¬ (verifySignature ∧ verifySignatureSet attestation attestingIndices = false)
  source : attestation.data.source
    = if attestation.data.target.epoch = state.epochCtx.currentShuffling.epoch then
        state.currentJustifiedCheckpoint
      else state.previousJustifiedCheckpoint
  targetRoot : ∃ root : Root, getBlockRoot state.toCachedBeaconStateAllForks
    attestation.data.target.epoch = .ok root
  headRoot : Spec.isBlockRoot (getBlockRoot state.toCachedBeaconStateAllForks
      attestation.data.target.epoch) attestation.data.target.root →
    ∃ root : Root, getBlockRootAtSlot state.toCachedBeaconStateAllForks attestation.data.slot
      = .ok root

theorem validateAttestation_committee {state : CachedBeaconStateAllForks β}
    {attestation : Attestation} (h : validateAttestation state attestation = .ok ()) :
    ∃ committee, getBeaconCommittee state attestation.data.slot attestation.data.index
      = .ok committee := by
  unfold validateAttestation at h
  dsimp only at h
  obtain ⟨count, -, h⟩ := eq_ok_of_bind h
  cases hcommittee : getBeaconCommittee state attestation.data.slot attestation.data.index with
  | ok committee => exact ⟨committee, rfl⟩
  | error e =>
    rw [hcommittee] at h
    repeat' split at h
    all_goals cases h

theorem Passes.participationStatus {state : CachedBeaconStateAltair β} {attestation : Attestation}
    {verifySignature : Bool} {verifySignatureSet : Attestation → List Nat → Bool}
    (h : Passes state verifySignature verifySignatureSet attestation)
    (hcache : cache.Reads state.toCachedBeaconStateAllForks) (inclusionDelay : Nat) :
    ∃ source target head cache',
      getAttestationParticipationStatus state.toCachedBeaconStateAllForks attestation.data
          inclusionDelay cache = .ok (flagsMask source target head, cache') ∧
      Spec.getAttestationParticipationFlagIndices state.toCachedBeaconStateAllForks
          attestation.data inclusionDelay = flagsIndices source target head ∧
      cache'.Reads state.toCachedBeaconStateAllForks := by
  obtain ⟨targetRoot, htarget⟩ := h.targetRoot
  obtain ⟨cache₁, hread, hcache₁⟩ := hcache.getBlockRoot_ok htarget
  have hsqrt : intSqrt SLOTS_PER_EPOCH = Nat.sqrt SLOTS_PER_EPOCH := bigIntSqrt_eq_sqrt _
  have hmatching : Spec.isBlockRoot (getBlockRoot state.toCachedBeaconStateAllForks
      attestation.data.target.epoch) attestation.data.target.root
      = decide (attestation.data.target.root = targetRoot) := by
    rw [htarget]
    rfl
  have hhead : decide (attestation.data.target.root = targetRoot) = true →
      ∃ headRoot cache₂, cache₁.getBlockRootAtSlot state.toCachedBeaconStateAllForks
          attestation.data.slot = .ok (headRoot, cache₂) ∧
        cache₂.Reads state.toCachedBeaconStateAllForks ∧
        Spec.isBlockRoot (getBlockRootAtSlot state.toCachedBeaconStateAllForks
            attestation.data.slot) attestation.data.beaconBlockRoot
          = decide (attestation.data.beaconBlockRoot = headRoot) := by
    intro htrue
    obtain ⟨headRoot, hroot⟩ := h.headRoot (hmatching.trans htrue)
    obtain ⟨cache₂, hread₂, hcache₂⟩ := hcache₁.getBlockRootAtSlot_ok hroot
    exact ⟨headRoot, cache₂, hread₂, hcache₂, by rw [hroot]; rfl⟩
  unfold getAttestationParticipationStatus Spec.getAttestationParticipationFlagIndices
  dsimp only
  rw [if_neg (not_not.mpr h.source), hread, hmatching, hsqrt]
  cases hvoted : decide (attestation.data.target.root = targetRoot) with
  | false =>
    refine ⟨decide (inclusionDelay ≤ Nat.sqrt SLOTS_PER_EPOCH), false, false, cache₁, ?_, ?_,
      hcache₁⟩
    · simp only [bind, Except.bind, pure, Except.pure, hvoted]
      simp [flagsMask]
    · simp [flagsIndices]
  | true =>
    obtain ⟨headRoot, cache₂, hread₂, hcache₂, hmatchingHead⟩ := hhead hvoted
    refine ⟨decide (inclusionDelay ≤ Nat.sqrt SLOTS_PER_EPOCH),
      decide (inclusionDelay ≤ SLOTS_PER_EPOCH),
      decide (attestation.data.beaconBlockRoot = headRoot)
        && decide (inclusionDelay = MIN_ATTESTATION_INCLUSION_DELAY), cache₂, ?_, ?_, hcache₂⟩
    · simp only [bind, Except.bind, pure, Except.pure, hvoted, if_true, hread₂, Except.map]
      simp [flagsMask]
    · rw [hmatchingHead]
      simp [flagsIndices]

/-! ## All attestations -/

/-- The state the loop stands for. -/
def AttestationsLoop.view (loop : AttestationsLoop) (proposer : Nat)
    (state : CachedBeaconStateAltair (List Nat)) : CachedBeaconStateAltair (List Nat) :=
  { state with
    previousEpochParticipation := merged loop.previousEpochStatuses state.previousEpochParticipation
    currentEpochParticipation := merged loop.currentEpochStatuses state.currentEpochParticipation
    balanceList := increaseBalance state.balanceList proposer loop.proposerReward }

omit [Preset] in
theorem increaseBalance_zero (balanceList : List Nat) (index : Nat) :
    increaseBalance balanceList index 0 = balanceList := by
  refine List.ext_getElem? fun i => ?_
  unfold increaseBalance
  rw [List.getElem?_modify]
  cases balanceList[i]? <;> simp

omit [Preset] in
theorem increaseBalance_add (balanceList : List Nat) (index a b : Nat) :
    increaseBalance (increaseBalance balanceList index a) index b
      = increaseBalance balanceList index (a + b) := by
  unfold increaseBalance
  rw [List.modify_modify_eq]
  congr 1
  funext x
  exact Nat.add_assoc x a b

variable {verifySignature : Bool} {verifySignatureSet : Attestation → List Nat → Bool}
  {attestation : Attestation}

/-- One attestation: the loop stands for what the spec makes of the state it stood for. -/
theorem processAttestationStep_spec (hagree : AttestationCacheAgrees state)
    (hpass : Passes state verifySignature verifySignatureSet attestation) {loop : AttestationsLoop}
    (hcache : loop.rootCache.Reads state.toCachedBeaconStateAllForks) (proposer : Nat) :
    ∃ loop', processAttestationStep state verifySignature verifySignatureSet loop attestation
        = .ok loop' ∧
      loop'.rootCache.Reads state.toCachedBeaconStateAllForks ∧
      Spec.processAttestation proposer (loop.view proposer state) attestation
        = loop'.view proposer state := by
  obtain ⟨committee, hcommittee⟩ := validateAttestation_committee hpass.valid
  have hindices : getAttestingIndices state.toCachedBeaconStateAllForks attestation.data
      attestation.aggregationBits
      = .ok (zipIndexesCommitteeBits committee attestation.aggregationBits) := by
    unfold getAttestingIndices
    rw [hcommittee]
    rfl
  have hattesters : ∀ i ∈ zipIndexesCommitteeBits committee attestation.aggregationBits,
      i < state.validators.length := by
    intro i hi
    unfold zipIndexesCommitteeBits at hi
    obtain ⟨⟨j, bit⟩, hmem, rfl⟩ := List.mem_map.mp hi
    obtain ⟨shuffled, hshuffled, slotCommittees, hslot, hmemCommittee⟩ :=
      mem_of_getBeaconCommittee hcommittee
    exact hagree.committees shuffled hshuffled slotCommittees hslot committee hmemCommittee j
      (List.of_mem_zip (List.mem_filter.mp hmem).1).1
  obtain ⟨source, target, head, cache', hstatus, hflags, hcache'⟩ :=
    hpass.participationStatus hcache (state.slot - attestation.data.slot)
  have hcurrent : decide (attestation.data.target.epoch = computeEpochAtSlot state.slot)
      = decide (attestation.data.target.epoch = state.epochCtx.currentShuffling.epoch) := by
    rw [hagree.currentEpoch]
  have hfold : ∀ (statuses : TreeMap Nat ParticipationFlags)
      (participation : List ParticipationFlags),
      participation.length = state.validators.length →
      (zipIndexesCommitteeBits committee attestation.aggregationBits).foldl
          (Spec.processAttester (loop.view proposer state) (flagsIndices source target head))
          (merged statuses participation, 0)
        = let next := (zipIndexesCommitteeBits committee attestation.aggregationBits).foldl
            (attesterStep (.ofList participation) state.epochCtx.effectiveBalanceIncrements
              (flagsMask source target head)) (statuses, 0)
          (merged next.1 participation, next.2 * state.epochCache.baseRewardPerIncrement) := by
    intro statuses participation hlen
    have h := @foldl_attesterStep_spec _ statuses _ _ hagree hlen source target head 0 _ hattesters
    rwa [Nat.zero_mul] at h
  have hspecFlags : Spec.getAttestationParticipationFlagIndices
      (loop.view proposer state).toCachedBeaconStateAllForks attestation.data
      ((loop.view proposer state).slot - attestation.data.slot)
      = flagsIndices source target head := hflags
  have hspecCommittee : getBeaconCommittee (loop.view proposer state).toCachedBeaconStateAllForks
      attestation.data.slot attestation.data.index = .ok committee := hcommittee
  have hspecCurrent : decide (attestation.data.target.epoch
      = computeEpochAtSlot (loop.view proposer state).slot)
      = decide (attestation.data.target.epoch = state.epochCtx.currentShuffling.epoch) := hcurrent
  unfold processAttestationStep Spec.processAttestation
  simp only [bind, Except.bind, pure, Except.pure, hpass.valid, hindices, hstatus,
    if_neg (hpass.signature _ hindices), hspecFlags, hspecCommittee, hspecCurrent]
  refine ⟨_, rfl, hcache', ?_⟩
  unfold AttestationsLoop.view at hfold ⊢
  cases decide (attestation.data.target.epoch = state.epochCtx.currentShuffling.epoch) with
  | false =>
    have h := hfold loop.previousEpochStatuses state.previousEpochParticipation
      hagree.previousLength
    simp only [Bool.false_eq_true, if_false, h, increaseBalance_add]
  | true =>
    have h := hfold loop.currentEpochStatuses state.currentEpochParticipation hagree.currentLength
    simp only [if_true, h, increaseBalance_add]

theorem foldlM_processAttestationStep_spec (hagree : AttestationCacheAgrees state)
    {attestations : List Attestation}
    (hpass : ∀ attestation ∈ attestations,
      Passes state verifySignature verifySignatureSet attestation)
    (loop : AttestationsLoop)
    (hcache : loop.rootCache.Reads state.toCachedBeaconStateAllForks) (proposer : Nat) :
    ∃ loop', attestations.foldlM
        (processAttestationStep state verifySignature verifySignatureSet) loop = .ok loop' ∧
      attestations.foldl (Spec.processAttestation proposer) (loop.view proposer state)
        = loop'.view proposer state := by
  induction attestations generalizing loop with
  | nil => exact ⟨loop, rfl, rfl⟩
  | cons attestation attestations ih =>
    obtain ⟨loop₁, hstep, hcache₁, hview⟩ :=
      processAttestationStep_spec hagree (hpass attestation List.mem_cons_self) hcache proposer
    obtain ⟨loop', hrun, hviews⟩ :=
      ih (fun attestation h => hpass attestation (List.mem_cons_of_mem _ h)) _ hcache₁
    refine ⟨loop', ?_, ?_⟩
    · rw [List.foldlM_cons, hstep]
      exact hrun
    · rw [List.foldl_cons, hview, hviews]

/-- Attestations that pass on a state with a cache in step leave the state that the spec's
`process_attestation` leaves, taken one after the other. -/
theorem processAttestations_eq_spec (hagree : AttestationCacheAgrees state)
    {attestations : List Attestation}
    (hpass : ∀ attestation ∈ attestations,
      Passes state verifySignature verifySignatureSet attestation) :
    processAttestations state attestations verifySignature verifySignatureSet
      = .ok (attestations.foldl (Spec.processAttestation
          (state.epochCache.proposers.getD (state.slot % SLOTS_PER_EPOCH) 0)) state) := by
  obtain ⟨loop, hloop, hview⟩ := foldlM_processAttestationStep_spec hagree hpass
    ⟨⟨∅, ∅⟩, 0, ∅, ∅⟩ (RootCache.reads_empty _)
    (state.epochCache.proposers.getD (state.slot % SLOTS_PER_EPOCH) 0)
  have hproposer : getBeaconProposer state.toCachedBeaconStateAllForks state.slot
      = .ok (state.epochCache.proposers.getD (state.slot % SLOTS_PER_EPOCH) 0) := by
    unfold getBeaconProposer
    dsimp only
    rw [if_neg (not_not.mpr hagree.currentEpoch.symm)]
  have hinitial : AttestationsLoop.view ⟨⟨∅, ∅⟩, 0, ∅, ∅⟩
      (state.epochCache.proposers.getD (state.slot % SLOTS_PER_EPOCH) 0) state = state := by
    unfold AttestationsLoop.view
    rw [merged_empty, merged_empty, increaseBalance_zero]
  rw [hinitial] at hview
  unfold processAttestations
  rw [hloop, hview]
  show (getBeaconProposer state.toCachedBeaconStateAllForks state.slot >>= _) = _
  rw [hproposer]
  show Except.ok _ = _
  rw [updateEpochParticipants_eq, updateEpochParticipants_eq]
  rfl

end

/-! ## A block with overlapping attestations -/

local instance blockPreset : Preset := minimal

def blockValidator : Validator where
  pubkey := 0
  withdrawalCredentials := 0
  effectiveBalance := 32000000000
  slashed := false
  activationEligibilityEpoch := 0
  activationEpoch := 0
  exitEpoch := ⊤
  withdrawableEpoch := ⊤

/-- A block at slot 26, in epoch 3, of proposer 3. Validator 0 has its source flag already. -/
def blockState : CachedBeaconStateAltair (List Nat) where
  config := chainConfigMinimal
  slot := 26
  validators := List.replicate 4 blockValidator
  balanceList := List.replicate 4 32000000000
  slashings := []
  finalizedCheckpoint := ⟨1, 0xa1⟩
  inactivityScores := List.replicate 4 0
  epochCtx :=
    { previousShuffling := ⟨2, [0, 1, 2, 3]⟩
      currentShuffling := ⟨3, [0, 1, 2, 3]⟩
      nextShuffling := ⟨4, [0, 1, 2, 3]⟩
      effectiveBalanceIncrements := List.replicate 4 32
      totalActiveBalanceIncrements := 128
      churnLimit := 4
      exitQueueEpoch := 8
      exitQueueChurn := 0
      epoch := 3 }
  blockRoots := Vector.replicate 64 0xb0
  randaoMixes := Vector.replicate 64 0
  justificationBits := Vector.replicate 4 false
  previousJustifiedCheckpoint := ⟨1, 0xa1⟩
  currentJustifiedCheckpoint := ⟨2, 0xa2⟩
  epochCache :=
    { previousCommittees := ⟨[0, 1, 2, 3], List.replicate 8 [[2, 3]], 1⟩
      currentCommittees := ⟨[0, 1, 2, 3], List.replicate 8 [[0, 1, 2]], 1⟩
      nextCommittees := ⟨[0, 1, 2, 3], [], 1⟩
      proposers := List.replicate 8 3
      syncParticipantReward := 0
      baseRewardPerIncrement := 178885
      currentSyncCommitteeIndexed := none
      nextSyncCommitteeIndexed := none
      syncPeriod := 0 }
  previousEpochParticipation := List.replicate 4 0
  currentEpochParticipation := [1, 0, 0, 0]
  currentSyncCommittee := ⟨[], 0⟩
  nextSyncCommittee := ⟨[], 0⟩

/-- Two attestations of the current epoch that share validator 1, the second for another head, and
one of the previous epoch. -/
def blockAttestations : List Attestation :=
  [⟨[true, true, false], ⟨25, 0, 0xb0, ⟨2, 0xa2⟩, ⟨3, 0xb0⟩⟩, 0⟩,
    ⟨[false, true, true], ⟨25, 0, 0xc0, ⟨2, 0xa2⟩, ⟨3, 0xb0⟩⟩, 0⟩,
    ⟨[true, true], ⟨23, 0, 0xb0, ⟨1, 0xa1⟩, ⟨2, 0xb0⟩⟩, 0⟩]

theorem attestationCacheAgrees_blockState : AttestationCacheAgrees blockState where
  currentEpoch := by decide
  baseRewardPerIncrement := by decide +kernel
  effectiveBalance := by decide +kernel
  previousLength := by decide
  currentLength := by decide
  committees := by decide +kernel

theorem passes_blockAttestations : ∀ attestation ∈ blockAttestations,
    Passes blockState true (fun _ _ => true) attestation := by
  intro attestation hmem
  have hroot : ∀ attestation ∈ blockAttestations,
      validateAttestation blockState.toCachedBeaconStateAllForks attestation = .ok () ∧
      attestation.data.source
        = (if attestation.data.target.epoch = 3 then ⟨2, 0xa2⟩ else ⟨1, 0xa1⟩) ∧
      getBlockRoot blockState.toCachedBeaconStateAllForks attestation.data.target.epoch
        = .ok 0xb0 ∧
      getBlockRootAtSlot blockState.toCachedBeaconStateAllForks attestation.data.slot
        = .ok 0xb0 := by
    decide +kernel
  obtain ⟨hvalid, hsource, htarget, hhead⟩ := hroot attestation hmem
  exact ⟨hvalid, fun _ _ h => by simp at h, hsource, ⟨0xb0, htarget⟩, fun _ => ⟨0xb0, hhead⟩⟩

/-- Each flag is paid for once. -/
theorem processAttestations_eq_spec_blockState :
    (processAttestations blockState blockAttestations true (fun _ _ => true)).map
        (fun state => (state.previousEpochParticipation, state.currentEpochParticipation,
          state.balanceList))
      = .ok ([0, 0, 2, 2], [7, 7, 3, 0], [32000000000, 32000000000, 32000000000, 32002376615]) := by
  rw [processAttestations_eq_spec attestationCacheAgrees_blockState passes_blockAttestations]
  decide +kernel

end Lodestar.StateTransition

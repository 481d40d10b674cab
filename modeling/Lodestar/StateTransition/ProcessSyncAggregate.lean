import Lodestar.Base.Except
import Lodestar.Base.Saturating
import Lodestar.StateTransition.Domains

/-!
# The sync aggregate of an altair block

`altair/block/processSyncCommittee.ts`. The rewards and penalties of a block are
added up for each validator and are applied at once; the spec pays and fines one
committee position after the other, and a balance that is used up stays at zero.
-/

namespace Lodestar.StateTransition

open Lodestar.Base

section

variable [Preset]

/-! ## Objects -/

structure SyncAggregate where
  syncCommitteeBits : Vector Bool SYNC_COMMITTEE_SIZE
  syncCommitteeSignature : BLSSignature

/-- What `processSyncAggregate` reads of an `altair.BeaconBlock`. -/
structure SyncAggregateBlock where
  slot : Nat
  syncAggregate : SyncAggregate

/-- `Signatures`, with the signing root of a block root. -/
structure SyncSignatures extends Signatures where
  rootSigningRoot : Root → Root → Root

/-- `0xc000…00`. -/
def G2_POINT_AT_INFINITY : BLSSignature := 0xc0 <<< 760

/-- `epochCtx.syncProposerReward`, which is written with `syncParticipantReward`. -/
def EpochCache.syncProposerReward (cache : EpochCache) : Nat :=
  cache.syncParticipantReward * PROPOSER_WEIGHT / (WEIGHT_DENOMINATOR - PROPOSER_WEIGHT)

/-! ## The committee -/

/-- `epochCtx.currentSyncCommitteeIndexed.validatorIndices`. -/
def currentSyncCommitteeIndices (state : KeyedBeaconState) : Except String (List Nat) :=
  match state.epochCache.currentSyncCommitteeIndexed with
  | none => .error "Empty SyncCommitteeCache"
  | some syncCommittee => .ok syncCommittee.validatorIndices

/-- Each index with its bit; a bit that is missing is not set. -/
def withBits (indexes : List Nat) (bits : List Bool) : List (Nat × Bool) :=
  indexes.mapIdx fun i index => (index, bits.getD i false)

/-- `zipIndexes`: those that participated, and those that did not. -/
def zipAllIndexesSyncCommitteeBits (indexes : List Nat) (bits : List Bool) :
    List Nat × List Nat :=
  (((withBits indexes bits).filter (·.2)).map (·.1),
    ((withBits indexes bits).filter (!·.2)).map (·.1))

/-- No set is `null`: nobody participates, and the signature is the point at infinity. -/
def getSyncCommitteeSignatureSet (bls : SyncSignatures) (state : KeyedBeaconState)
    (block : SyncAggregateBlock) (participantIndices : List Nat) :
    Except String (Option ISignatureSet) := do
  let signature := block.syncAggregate.syncCommitteeSignature
  let previousSlot := max block.slot 1 - 1
  let rootSigned ← getBlockRootAtSlot state.toCachedBeaconStateAllForks previousSlot
  if participantIndices.length = 0 then
    if signature = G2_POINT_AT_INFINITY then return none
    else throw "Empty sync committee signature is not infinity"
  let domain := bls.getDomain state.config DOMAIN_SYNC_COMMITTEE previousSlot
  return some (.aggregate (participantIndices.map fun i => state.index2pubkey[i]?)
    (bls.rootSigningRoot rootSigned domain) signature)

def verifySyncCommitteeSignature (bls : SyncSignatures) (state : KeyedBeaconState)
    (block : SyncAggregateBlock) (participantIndices : List Nat) : Except String Unit := do
  match ← getSyncCommitteeSignatureSet bls state block participantIndices with
  | none => return ()
  | some signatureSet =>
    let valid ← bls.verifySignatureSet signatureSet
    if ¬ valid then throw "Sync committee signature invalid"

/-! ## The deltas -/

/-- The deltas in the order of `accumulateDelta`: the participants, the proposer, the others. -/
def syncAggregateDeltas (participantIndices unparticipantIndices : List Nat)
    (proposerIndex syncParticipantReward syncProposerReward : Nat) : List (Nat × Int) :=
  participantIndices.map (·, (syncParticipantReward : Int)) ++
    [(proposerIndex, ((syncProposerReward * participantIndices.length : Nat) : Int))] ++
    unparticipantIndices.map (·, -(syncParticipantReward : Int))

/-- `BalanceList.applyDeltaInBatch`: each delta once, and no balance below zero. -/
def applyDeltaInBatch (balanceList : List Nat) (deltaByIndex : OrderedMap Nat Int) : List Nat :=
  balanceList.mapIdx fun i balance =>
    match deltaByIndex.get i with
    | none => balance
    | some delta => addSat balance delta

/-- The end of `processSyncAggregate`. -/
def applySyncDeltas (state : KeyedBeaconState)
    (participantIndices unparticipantIndices : List Nat) (proposerIndex : Nat) :
    KeyedBeaconState :=
  let deltaByIndex := accumulate (syncAggregateDeltas participantIndices unparticipantIndices
    proposerIndex state.epochCache.syncParticipantReward state.epochCache.syncProposerReward)
  { state with balanceList := applyDeltaInBatch state.balanceList deltaByIndex }

def processSyncAggregate (bls : SyncSignatures) (state : KeyedBeaconState)
    (block : SyncAggregateBlock) (verifySignatures : Bool) : Except String KeyedBeaconState := do
  let committeeIndices ← currentSyncCommitteeIndices state
  let (participantIndices, unparticipantIndices) :=
    zipAllIndexesSyncCommitteeBits committeeIndices block.syncAggregate.syncCommitteeBits.toList
  if verifySignatures then verifySyncCommitteeSignature bls state block participantIndices
  let proposerIndex ← getBeaconProposer state.toCachedBeaconStateAllForks state.slot
  return applySyncDeltas state participantIndices unparticipantIndices proposerIndex

/-! ## The spec -/

/-- The loop of `process_sync_aggregate`: each member of the committee with its bit. -/
def specSyncAggregate (proposerIndex participantReward proposerReward : Nat)
    (committeeBits : List (Nat × Bool)) (balanceList : List Nat) : List Nat :=
  committeeBits.foldl (fun balanceList (participantIndex, participationBit) =>
    if participationBit then
      increaseBalance (increaseBalance balanceList participantIndex participantReward)
        proposerIndex proposerReward
    else decreaseBalance balanceList participantIndex participantReward) balanceList

/-- The updates of the spec's loop. -/
def specSyncUpdates (proposerIndex participantReward proposerReward : Nat)
    (committeeBits : List (Nat × Bool)) : List (Nat × Int) :=
  committeeBits.flatMap fun (participantIndex, participationBit) =>
    if participationBit then
      [(participantIndex, (participantReward : Int)), (proposerIndex, (proposerReward : Int))]
    else [(participantIndex, -(participantReward : Int))]

/-! ## The sum and the spec -/

variable {proposerIndex participantReward proposerReward : Nat}

omit [Preset] in
theorem withBits_eq_zip {indexes : List Nat} {bits : List Bool}
    (h : indexes.length = bits.length) : withBits indexes bits = indexes.zip bits := by
  refine List.ext_getElem ?_ fun i hi _ => ?_
  · simp [withBits, h]
  · have hbit : i < bits.length := by
      rw [withBits, List.length_mapIdx] at hi
      omega
    simp [withBits, List.getElem?_eq_getElem hbit]

omit [Preset] in
theorem increaseBalance_eq_modify (balanceList : List Nat) (index delta : Nat) :
    increaseBalance balanceList index delta
      = balanceList.modify index (addSat · (delta : Int)) := by
  unfold increaseBalance
  simp only [addSat_natCast]

omit [Preset] in
theorem decreaseBalance_eq_modify (balanceList : List Nat) (index delta : Nat) :
    decreaseBalance balanceList index delta
      = balanceList.modify index (addSat · (-(delta : Int))) := by
  unfold decreaseBalance
  simp only [addSat_neg]

omit [Preset] in
theorem specSyncAggregate_eq_applyDeltas (committeeBits : List (Nat × Bool))
    (balanceList : List Nat) :
    specSyncAggregate proposerIndex participantReward proposerReward committeeBits balanceList
      = applyDeltas balanceList
        (specSyncUpdates proposerIndex participantReward proposerReward committeeBits) := by
  induction committeeBits generalizing balanceList with
  | nil => rfl
  | cons member committeeBits ih =>
    obtain ⟨participantIndex, participationBit⟩ := member
    unfold specSyncAggregate specSyncUpdates at ih ⊢
    rw [List.foldl_cons, List.flatMap_cons, applyDeltas_append, ih]
    cases participationBit with
    | true =>
      simp only [if_true, increaseBalance_eq_modify]
      rfl
    | false =>
      simp only [Bool.false_eq_true, if_false, decreaseBalance_eq_modify]
      rfl

omit [Preset] in
theorem sum_deltasAt_specSyncUpdates (committeeBits : List (Nat × Bool)) (i : Nat) :
    (deltasAt (specSyncUpdates proposerIndex participantReward proposerReward committeeBits) i).sum
      = (deltasAt (syncAggregateDeltas ((committeeBits.filter (·.2)).map (·.1))
          ((committeeBits.filter (!·.2)).map (·.1)) proposerIndex participantReward
          proposerReward) i).sum := by
  induction committeeBits with
  | nil =>
    by_cases hproposer : proposerIndex = i <;>
      simp [specSyncUpdates, syncAggregateDeltas, deltasAt, hproposer]
  | cons member committeeBits ih =>
    obtain ⟨participantIndex, participationBit⟩ := member
    unfold specSyncUpdates syncAggregateDeltas at ih ⊢
    rw [List.flatMap_cons, deltasAt_append, List.sum_append, ih]
    cases participationBit <;> by_cases hself : participantIndex = i <;>
      by_cases hproposer : proposerIndex = i <;>
      simp [deltasAt, hself, hproposer] <;> ring

omit [Preset] in
theorem getElem?_applyDeltaInBatch (balanceList : List Nat) (updates : List (Nat × Int)) (i : Nat) :
    (applyDeltaInBatch balanceList (accumulate updates))[i]?
      = balanceList[i]?.map (addSat · (deltasAt updates i).sum) := by
  unfold applyDeltaInBatch
  rw [List.getElem?_mapIdx, ← getD_get_accumulate]
  cases (accumulate updates).get i with
  | none => simp [addSat]
  | some delta => rfl

omit [Preset] in
/-- The batch is the spec's loop exactly when no balance that is used up is refilled. -/
theorem applyDeltaInBatch_eq_spec_iff (committeeBits : List (Nat × Bool)) (balanceList : List Nat) :
    applyDeltaInBatch balanceList (accumulate (syncAggregateDeltas
        ((committeeBits.filter (·.2)).map (·.1)) ((committeeBits.filter (!·.2)).map (·.1))
        proposerIndex participantReward proposerReward))
      = specSyncAggregate proposerIndex participantReward proposerReward committeeBits balanceList
    ↔ ∀ i balance, balanceList[i]? = some balance → NoRefill balance
        (deltasAt (specSyncUpdates proposerIndex participantReward proposerReward committeeBits) i)
    := by
  rw [specSyncAggregate_eq_applyDeltas, List.ext_getElem?_iff]
  refine forall_congr' fun i => ?_
  rw [getElem?_applyDeltaInBatch, getElem?_applyDeltas, ← sum_deltasAt_specSyncUpdates]
  cases balanceList[i]? with
  | none => simp
  | some balance =>
    simp only [Option.map_some, Option.some.injEq, forall_eq']
    rw [← foldl_addSat_eq_iff]
    exact eq_comm

theorem processSyncAggregate_eq_ok {bls : SyncSignatures} {state state' : KeyedBeaconState}
    {block : SyncAggregateBlock} {verifySignatures : Bool} {committeeIndices : List Nat}
    (hcommittee : currentSyncCommitteeIndices state = .ok committeeIndices)
    (hproposer : getBeaconProposer state.toCachedBeaconStateAllForks state.slot = .ok proposerIndex)
    (h : processSyncAggregate bls state block verifySignatures = .ok state') :
    state' = applySyncDeltas state
      (zipAllIndexesSyncCommitteeBits committeeIndices
        block.syncAggregate.syncCommitteeBits.toList).1
      (zipAllIndexesSyncCommitteeBits committeeIndices
        block.syncAggregate.syncCommitteeBits.toList).2 proposerIndex := by
  unfold processSyncAggregate at h
  obtain ⟨committeeIndices', hcommittee', hrest⟩ := eq_ok_of_bind h
  rw [hcommittee] at hcommittee'
  obtain rfl := Except.ok.inj hcommittee'
  generalize zipAllIndexesSyncCommitteeBits committeeIndices _ = info at hrest ⊢
  obtain ⟨participantIndices, unparticipantIndices⟩ := info
  have hend : (getBeaconProposer state.toCachedBeaconStateAllForks state.slot >>= fun proposer =>
      pure (applySyncDeltas state participantIndices unparticipantIndices proposer))
        = Except.ok state' := by
    cases verifySignatures with
    | false => exact hrest
    | true => exact (eq_ok_of_bind hrest).choose_spec.2
  rw [hproposer] at hend
  exact (Except.ok.inj hend).symm

/-- The balances that `processSyncAggregate` leaves are those of the spec's loop exactly when no
balance that is used up is refilled. -/
theorem processSyncAggregate_eq_spec_iff (bls : SyncSignatures) (state state' : KeyedBeaconState)
    (block : SyncAggregateBlock) (verifySignatures : Bool) (committeeIndices : List Nat)
    (proposerIndex : Nat) (hcommittee : currentSyncCommitteeIndices state = .ok committeeIndices)
    (hsize : committeeIndices.length = SYNC_COMMITTEE_SIZE)
    (hproposer : getBeaconProposer state.toCachedBeaconStateAllForks state.slot = .ok proposerIndex)
    (h : processSyncAggregate bls state block verifySignatures = .ok state') :
    state'.balanceList = specSyncAggregate proposerIndex state.epochCache.syncParticipantReward
        state.epochCache.syncProposerReward
        (committeeIndices.zip block.syncAggregate.syncCommitteeBits.toList) state.balanceList
    ↔ ∀ i balance, state.balanceList[i]? = some balance → NoRefill balance
        (deltasAt (specSyncUpdates proposerIndex state.epochCache.syncParticipantReward
          state.epochCache.syncProposerReward
          (committeeIndices.zip block.syncAggregate.syncCommitteeBits.toList)) i) := by
  have hbits : withBits committeeIndices block.syncAggregate.syncCommitteeBits.toList
      = committeeIndices.zip block.syncAggregate.syncCommitteeBits.toList :=
    withBits_eq_zip (by rw [hsize, Vector.length_toList])
  rw [← applyDeltaInBatch_eq_spec_iff, ← hbits, processSyncAggregate_eq_ok hcommittee hproposer h]
  rfl

end

/-! ## A member with two positions -/

attribute [local instance] minimal

/-- Validator 0 has the first two positions of the committee, and validator 1 the others. -/
def twicePlaced (balance : Nat) : KeyedBeaconState :=
  { blockState.toCachedBeaconStateAllForks with
    balanceList := [balance, 100, 100, 100]
    epochCache := { blockState.epochCache with
      syncParticipantReward := 10
      currentSyncCommitteeIndexed := some ⟨[0, 0] ++ List.replicate 30 1, []⟩ }
    index2pubkey := [1, 2, 3, 4] }

/-- Nobody participates but in the second position. -/
def secondPosition : SyncAggregateBlock where
  slot := 26
  syncAggregate := ⟨(Vector.replicate 32 false).set 1 true, 1⟩

def validSignatures : SyncSignatures where
  computeDomain _ _ := 0
  headerSigningRoot _ _ := 0
  attestationSigningRoot _ _ := 0
  exitSigningRoot _ _ := 0
  verifySignatureSet _ := .ok true
  rootSigningRoot _ _ := 0

/-- The fine of the first position is less than the balance. -/
theorem processSyncAggregate_eq_spec_twicePlaced :
    ∃ state',
      processSyncAggregate validSignatures (twicePlaced 50) secondPosition true = .ok state' ∧
      state'.balanceList = [50, 0, 100, 101] ∧
      ∀ i balance, (twicePlaced 50).balanceList[i]? = some balance → NoRefill balance
        (deltasAt (specSyncUpdates 3 (twicePlaced 50).epochCache.syncParticipantReward
          (twicePlaced 50).epochCache.syncProposerReward
          ([0, 0] ++ List.replicate 30 1 |>.zip
            secondPosition.syncAggregate.syncCommitteeBits.toList)) i) := by
  have hrun : (processSyncAggregate validSignatures (twicePlaced 50) secondPosition
      true).toOption.map (fun state => state.balanceList) = some [50, 0, 100, 101] := by
    decide +kernel
  obtain ⟨state', h, hbalances⟩ := exists_ok_of_map hrun
  refine ⟨state', h, hbalances, ?_⟩
  refine (processSyncAggregate_eq_spec_iff validSignatures (twicePlaced 50) state' secondPosition
    true ([0, 0] ++ List.replicate 30 1) 3 rfl rfl (by decide +kernel) h).1 ?_
  rw [hbalances]
  decide +kernel

/-- The fine uses the balance up, and the reward of the second position refills it in the spec. -/
theorem processSyncAggregate_ne_spec :
    (processSyncAggregate validSignatures (twicePlaced 5) secondPosition true).map
        (fun state => state.balanceList) = .ok [5, 0, 100, 101] ∧
      specSyncAggregate 3 (twicePlaced 5).epochCache.syncParticipantReward
        (twicePlaced 5).epochCache.syncProposerReward (([0, 0] ++ List.replicate 30 1).zip
          secondPosition.syncAggregate.syncCommitteeBits.toList) (twicePlaced 5).balanceList
        = [10, 0, 100, 101] := by
  decide +kernel

end Lodestar.StateTransition

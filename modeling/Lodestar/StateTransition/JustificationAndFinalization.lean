import Mathlib.Logic.Relation
import Lodestar.Base.Except
import Lodestar.StateTransition.EpochProcess

/-!
# Justification and finalization

`allForks/epoch/processJustificationAndFinalization.ts`. Bit `i` of the
justification bits stands for the epoch `i + 1` before the current one, so a
current justified checkpoint with its bit set is before the current epoch, and
the checkpoints only move forward.
-/

namespace Lodestar.StateTransition

open Lodestar.Base

section

variable [Preset] {β : Type}

/-! ## processJustificationAndFinalization -/

/-- The bits one epoch on: each takes the value of the one before it, and the first is cleared. -/
def shiftBits (bits : Vector Bool JUSTIFICATION_BITS_LENGTH) :
    Vector Bool JUSTIFICATION_BITS_LENGTH :=
  Vector.ofFn fun i => if i.val = 0 then false else bits[i.val - 1]

/-- The four finalization rules, the later ones over the earlier ones. -/
def finalize (bits : Vector Bool JUSTIFICATION_BITS_LENGTH) (currentEpoch : Nat)
    (oldPreviousJustifiedCheckpoint oldCurrentJustifiedCheckpoint finalizedCheckpoint :
      Checkpoint) : Checkpoint :=
  let b (i : Fin JUSTIFICATION_BITS_LENGTH) := bits[i]
  let finalizedCheckpoint :=
    -- the 2nd/3rd/4th most recent epochs are justified, the 2nd using the 4th as source
    if b 1 && b 2 && b 3 && oldPreviousJustifiedCheckpoint.epoch + 3 = currentEpoch then
      oldPreviousJustifiedCheckpoint else finalizedCheckpoint
  let finalizedCheckpoint :=
    -- the 2nd/3rd most recent epochs are justified, the 2nd using the 3rd as source
    if b 1 && b 2 && oldPreviousJustifiedCheckpoint.epoch + 2 = currentEpoch then
      oldPreviousJustifiedCheckpoint else finalizedCheckpoint
  let finalizedCheckpoint :=
    -- the 1st/2nd/3rd most recent epochs are justified, the 1st using the 3rd as source
    if b 0 && b 1 && b 2 && oldCurrentJustifiedCheckpoint.epoch + 2 = currentEpoch then
      oldCurrentJustifiedCheckpoint else finalizedCheckpoint
  -- the 1st/2nd most recent epochs are justified, the 1st using the 2nd as source
  if b 0 && b 1 && oldCurrentJustifiedCheckpoint.epoch + 1 = currentEpoch then
    oldCurrentJustifiedCheckpoint else finalizedCheckpoint

/-- Justifies an epoch with a supermajority of target votes, and sets its bit. -/
def justifyEpoch (state : CachedBeaconStateAllForks β) (epochProcess : EpochProcess)
    (targetStakeByIncrement epoch : Nat) (bit : Fin JUSTIFICATION_BITS_LENGTH)
    (justified : Checkpoint × Vector Bool JUSTIFICATION_BITS_LENGTH) :
    Except String (Checkpoint × Vector Bool JUSTIFICATION_BITS_LENGTH) :=
  if epochProcess.totalActiveStakeByIncrement * 2 ≤ targetStakeByIncrement * 3 then do
    let root ← getBlockRoot state epoch
    return (⟨epoch, root⟩, justified.2.set bit true)
  else
    .ok justified

def processJustificationAndFinalization (state : CachedBeaconStateAllForks β)
    (epochProcess : EpochProcess) : Except String (CachedBeaconStateAllForks β) := do
  let previousEpoch := epochProcess.prevEpoch
  let currentEpoch := epochProcess.currentEpoch
  if currentEpoch ≤ GENESIS_EPOCH + 1 then
    return state
  let oldPreviousJustifiedCheckpoint := state.previousJustifiedCheckpoint
  let oldCurrentJustifiedCheckpoint := state.currentJustifiedCheckpoint
  let justified ← justifyEpoch state epochProcess
    epochProcess.prevEpochUnslashedStake.targetStakeByIncrement previousEpoch 1
    (oldCurrentJustifiedCheckpoint, shiftBits state.justificationBits)
  let justified ← justifyEpoch state epochProcess
    epochProcess.currEpochUnslashedTargetStakeByIncrement currentEpoch 0 justified
  return { state with
    previousJustifiedCheckpoint := oldCurrentJustifiedCheckpoint
    currentJustifiedCheckpoint := justified.1
    justificationBits := justified.2
    finalizedCheckpoint := finalize justified.2 currentEpoch oldPreviousJustifiedCheckpoint
      oldCurrentJustifiedCheckpoint state.finalizedCheckpoint }

/-! ## The order of the checkpoints -/

/-- The bit of the checkpoint's epoch is set, as far as the bits reach back. The genesis epoch is
never voted on. -/
def BitsAgree (bits : Vector Bool JUSTIFICATION_BITS_LENGTH) (currentEpoch : Nat)
    (checkpoint : Checkpoint) : Prop :=
  checkpoint.epoch = GENESIS_EPOCH ∨ checkpoint.epoch + JUSTIFICATION_BITS_LENGTH < currentEpoch ∨
    ∃ i : Fin JUSTIFICATION_BITS_LENGTH, checkpoint.epoch + i + 1 = currentEpoch ∧ bits[i] = true

/-- The checkpoints are in order, none of them after the current epoch. -/
structure FinalityOrder (state : CachedBeaconStateAllForks β) : Prop where
  finalized_le : state.finalizedCheckpoint.epoch ≤ state.previousJustifiedCheckpoint.epoch
  previous_le : state.previousJustifiedCheckpoint.epoch ≤ state.currentJustifiedCheckpoint.epoch
  current_le : state.currentJustifiedCheckpoint.epoch ≤ computeEpochAtSlot state.slot

/-- No checkpoint of `state'` is before that of `state`. -/
structure FinalityLe (state state' : CachedBeaconStateAllForks β) : Prop where
  finalized : state.finalizedCheckpoint.epoch ≤ state'.finalizedCheckpoint.epoch
  previous : state.previousJustifiedCheckpoint.epoch ≤ state'.previousJustifiedCheckpoint.epoch
  current : state.currentJustifiedCheckpoint.epoch ≤ state'.currentJustifiedCheckpoint.epoch

theorem FinalityLe.refl (state : CachedBeaconStateAllForks β) : FinalityLe state state :=
  ⟨le_refl _, le_refl _, le_refl _⟩

theorem FinalityLe.trans {s₁ s₂ s₃ : CachedBeaconStateAllForks β} (h₁ : FinalityLe s₁ s₂)
    (h₂ : FinalityLe s₂ s₃) : FinalityLe s₁ s₃ :=
  ⟨h₁.finalized.trans h₂.finalized, h₁.previous.trans h₂.previous, h₁.current.trans h₂.current⟩

/-- The epoch process is one of the state's own epoch. -/
structure OwnEpoch (state : CachedBeaconStateAllForks β) (epochProcess : EpochProcess) : Prop where
  currentEpoch : epochProcess.currentEpoch = computeEpochAtSlot state.slot
  prevEpoch : epochProcess.prevEpoch = computeEpochAtSlot state.slot - 1

/-! ## One call -/

section

omit [Preset]

theorem finalize_cases (bits : Vector Bool JUSTIFICATION_BITS_LENGTH) (currentEpoch : Nat)
    (previous current finalized : Checkpoint) :
    finalize bits currentEpoch previous current finalized = finalized ∨
      finalize bits currentEpoch previous current finalized = previous ∨
      finalize bits currentEpoch previous current finalized = current := by
  unfold finalize
  dsimp only
  split_ifs <;> simp

theorem getElem_shiftBits_succ (bits : Vector Bool JUSTIFICATION_BITS_LENGTH) (i : Nat)
    (hi : i + 1 < JUSTIFICATION_BITS_LENGTH) : (shiftBits bits)[i + 1] = bits[i] := by
  simp [shiftBits]

end

theorem justifyEpoch_cases {state : CachedBeaconStateAllForks β} {epochProcess : EpochProcess}
    {stake epoch : Nat} {bit : Fin JUSTIFICATION_BITS_LENGTH}
    {justified justified' : Checkpoint × Vector Bool JUSTIFICATION_BITS_LENGTH}
    (hcall : justifyEpoch state epochProcess stake epoch bit justified = .ok justified') :
    justified' = justified ∨ justified'.1.epoch = epoch ∧ justified'.2[bit] = true := by
  unfold justifyEpoch at hcall
  split at hcall
  · right
    cases hroot : getBlockRoot state epoch with
    | error e =>
      rw [hroot] at hcall
      cases hcall
    | ok root =>
      rw [hroot] at hcall
      obtain rfl := Except.ok.inj hcall
      exact ⟨rfl, by simp⟩
  · exact .inl (Except.ok.inj hcall).symm

/-- What a call does: nothing in the first two epochs, and later one of the rules for the finalized
checkpoint and one of three for the current justified one, which has its bit set. -/
theorem processJustificationAndFinalization_cases {state state' : CachedBeaconStateAllForks β}
    {epochProcess : EpochProcess}
    (hcall : processJustificationAndFinalization state epochProcess = .ok state') :
    epochProcess.currentEpoch ≤ 1 ∧ state' = state ∨
      1 < epochProcess.currentEpoch ∧ state'.slot = state.slot ∧
        state'.previousJustifiedCheckpoint = state.currentJustifiedCheckpoint ∧
        (state'.finalizedCheckpoint = state.finalizedCheckpoint ∨
          state'.finalizedCheckpoint = state.previousJustifiedCheckpoint ∨
          state'.finalizedCheckpoint = state.currentJustifiedCheckpoint) ∧
        (state'.currentJustifiedCheckpoint = state.currentJustifiedCheckpoint ∧
            state'.justificationBits = shiftBits state.justificationBits ∨
          state'.currentJustifiedCheckpoint.epoch = epochProcess.prevEpoch ∧
            state'.justificationBits[1] = true ∨
          state'.currentJustifiedCheckpoint.epoch = epochProcess.currentEpoch ∧
            state'.justificationBits[0] = true) := by
  unfold processJustificationAndFinalization at hcall
  by_cases hgenesis : epochProcess.currentEpoch ≤ GENESIS_EPOCH + 1
  · rw [if_pos hgenesis] at hcall
    exact .inl ⟨hgenesis, (Except.ok.inj hcall).symm⟩
  · right
    rw [if_neg hgenesis] at hcall
    obtain ⟨j₁, h₁, hcall⟩ := eq_ok_of_bind hcall
    obtain ⟨j₂, h₂, hcall⟩ := eq_ok_of_bind hcall
    obtain rfl := Except.ok.inj hcall
    refine ⟨Nat.lt_of_not_le hgenesis, rfl, rfl, finalize_cases _ _ _ _ _, ?_⟩
    dsimp only
    rcases justifyEpoch_cases h₂ with rfl | h₂
    · rcases justifyEpoch_cases h₁ with rfl | h₁
      · exact .inl ⟨rfl, rfl⟩
      · exact .inr (.inl h₁)
    · exact .inr (.inr h₂)

/-! ## The invariant -/

/-- The order of the checkpoints, with the bit of the current justified one. -/
structure FinalityInv (state : CachedBeaconStateAllForks β) : Prop extends FinalityOrder state where
  agree : BitsAgree state.justificationBits (computeEpochAtSlot state.slot)
    state.currentJustifiedCheckpoint

namespace FinalityInv

variable {state state' : CachedBeaconStateAllForks β} {epochProcess : EpochProcess}

theorem current_lt (h : FinalityInv state) :
    state.currentJustifiedCheckpoint.epoch = 0 ∨
      state.currentJustifiedCheckpoint.epoch < computeEpochAtSlot state.slot := by
  rcases h.agree with hgenesis | hold | ⟨i, hi, -⟩
  · exact .inl hgenesis
  · exact .inr (by omega)
  · exact .inr (by omega)

theorem call (h : FinalityInv state) (hown : OwnEpoch state epochProcess)
    (hcall : processJustificationAndFinalization state epochProcess = .ok state') :
    FinalityOrder state' ∧ FinalityLe state state' := by
  obtain ⟨hfin, hprev, hcurr⟩ := h.toFinalityOrder
  have hlt := h.current_lt
  have hce := hown.currentEpoch
  have hpe := hown.prevEpoch
  rcases processJustificationAndFinalization_cases hcall with
    ⟨-, rfl⟩ | ⟨hepoch, hslot, hp, hf, hc⟩
  · exact ⟨h.toFinalityOrder, .refl _⟩
  · have hf' : state.finalizedCheckpoint.epoch ≤ state'.finalizedCheckpoint.epoch ∧
        state'.finalizedCheckpoint.epoch ≤ state.currentJustifiedCheckpoint.epoch := by
      rcases hf with hf | hf | hf <;> rw [hf] <;> constructor <;> omega
    have hc' : state.currentJustifiedCheckpoint.epoch ≤ state'.currentJustifiedCheckpoint.epoch ∧
        state'.currentJustifiedCheckpoint.epoch ≤ computeEpochAtSlot state.slot := by
      rcases hc with ⟨hc, -⟩ | ⟨hc, -⟩ | ⟨hc, -⟩ <;> rw [hc] <;> constructor <;> omega
    refine ⟨⟨?_, ?_, ?_⟩, ⟨hf'.1, ?_, hc'.1⟩⟩
    · rw [hp]
      exact hf'.2
    · rw [hp]
      exact hc'.1
    · rw [hslot]
      exact hc'.2
    · rw [hp]
      exact hprev

theorem call_agree (h : FinalityInv state) (hown : OwnEpoch state epochProcess)
    (hcall : processJustificationAndFinalization state epochProcess = .ok state') :
    BitsAgree state'.justificationBits (computeEpochAtSlot state.slot + 1)
      state'.currentJustifiedCheckpoint := by
  have hce := hown.currentEpoch
  have hpe := hown.prevEpoch
  rcases processJustificationAndFinalization_cases hcall with ⟨hepoch, rfl⟩ | ⟨hepoch, -, -, -, hc⟩
  · rcases h.current_lt with hzero | hlt
    · exact .inl hzero
    · left
      unfold GENESIS_EPOCH
      omega
  · rcases hc with ⟨hc, hbits⟩ | ⟨hc, hbit⟩ | ⟨hc, hbit⟩
    · rw [hc, hbits]
      rcases h.agree with hgenesis | hold | ⟨i, hi, hbit⟩
      · exact .inl hgenesis
      · exact .inr (.inl (by omega))
      · by_cases hlast : i.val + 1 < JUSTIFICATION_BITS_LENGTH
        · -- the checkpoint's bit has moved on by one
          refine .inr (.inr ⟨⟨i + 1, hlast⟩, ?_, ?_⟩)
          · dsimp only
            omega
          · exact (getElem_shiftBits_succ _ _ hlast).trans hbit
        · exact .inr (.inl (by omega))
    · refine .inr (.inr ⟨1, ?_, hbit⟩)
      show state'.currentJustifiedCheckpoint.epoch + 1 + 1 = _
      omega
    · refine .inr (.inr ⟨0, ?_, hbit⟩)
      show state'.currentJustifiedCheckpoint.epoch + 0 + 1 = _
      omega

end FinalityInv

/-! ## Runs -/

/-- An epoch of the chain: a call at its end, and then any change, up to the end of the next epoch,
that keeps the checkpoints and the bits. -/
inductive EpochTransition : CachedBeaconStateAllForks β → CachedBeaconStateAllForks β → Prop
  | mk {state state' state'' : CachedBeaconStateAllForks β} (epochProcess : EpochProcess)
      (hown : OwnEpoch state epochProcess)
      (hcall : processJustificationAndFinalization state epochProcess = .ok state')
      (hslot : computeEpochAtSlot state''.slot = computeEpochAtSlot state.slot + 1)
      (hbits : state''.justificationBits = state'.justificationBits)
      (hfinalized : state''.finalizedCheckpoint = state'.finalizedCheckpoint)
      (hprevious : state''.previousJustifiedCheckpoint = state'.previousJustifiedCheckpoint)
      (hcurrent : state''.currentJustifiedCheckpoint = state'.currentJustifiedCheckpoint) :
      EpochTransition state state''

namespace FinalityInv

variable {state state' : CachedBeaconStateAllForks β}

theorem step (h : FinalityInv state) (hstep : EpochTransition state state') :
    FinalityInv state' ∧ FinalityLe state state' := by
  cases hstep with
  | mk epochProcess hown hcall hslot hbits hfinalized hprevious hcurrent =>
    obtain ⟨hlast, hle⟩ := h.call hown hcall
    have hagree := h.call_agree hown hcall
    have hslot' : computeEpochAtSlot state.slot ≤ computeEpochAtSlot state'.slot := by omega
    have hcall' := processJustificationAndFinalization_cases hcall
    refine ⟨⟨⟨?_, ?_, ?_⟩, ?_⟩, ⟨?_, ?_, ?_⟩⟩
    · rw [hfinalized, hprevious]
      exact hlast.finalized_le
    · rw [hprevious, hcurrent]
      exact hlast.previous_le
    · rw [hcurrent, hslot]
      refine hlast.current_le.trans ?_
      rcases hcall' with ⟨-, rfl⟩ | ⟨-, hs, -⟩
      · omega
      · rw [hs]
        omega
    · rw [hbits, hslot, hcurrent]
      exact hagree
    · rw [hfinalized]
      exact hle.finalized
    · rw [hprevious]
      exact hle.previous
    · rw [hcurrent]
      exact hle.current

theorem run (h : FinalityInv state) (hrun : Relation.ReflTransGen EpochTransition state state') :
    FinalityInv state' ∧ FinalityLe state state' := by
  induction hrun with
  | refl => exact ⟨h, .refl state⟩
  | tail _ hstep ih =>
    obtain ⟨hinv, hle⟩ := ih.1.step hstep
    exact ⟨hinv, ih.2.trans hle⟩

end FinalityInv

/-- In every run the checkpoints stay in order and never move back, right after each call and in
every state between two calls. -/
theorem finality_never_reverts {state state' : CachedBeaconStateAllForks β}
    (h : FinalityOrder state)
    (hagree : BitsAgree state.justificationBits (computeEpochAtSlot state.slot)
      state.currentJustifiedCheckpoint)
    (hrun : Relation.ReflTransGen EpochTransition state state') :
    FinalityOrder state' ∧ FinalityLe state state' ∧
      ∀ (epochProcess : EpochProcess) (state'' : CachedBeaconStateAllForks β),
        OwnEpoch state' epochProcess →
        processJustificationAndFinalization state' epochProcess = .ok state'' →
        FinalityOrder state'' ∧ FinalityLe state' state'' := by
  obtain ⟨hinv, hle⟩ := FinalityInv.run ⟨h, hagree⟩ hrun
  exact ⟨hinv.toFinalityOrder, hle, fun epochProcess state'' hown hcall => hinv.call hown hcall⟩

end

/-! ## An epoch that finalizes -/

local instance justifiedPreset : Preset := minimal

/-- The last slot of epoch 3, with epoch 2 justified. -/
def justifiedState : CachedBeaconStateAllForks (List Nat) where
  config := chainConfigMinimal
  slot := 31
  validators := []
  balanceList := []
  slashings := []
  finalizedCheckpoint := ⟨1, 0xa1⟩
  inactivityScores := []
  epochCtx :=
    { previousShuffling := ⟨2, []⟩
      currentShuffling := ⟨3, []⟩
      nextShuffling := ⟨4, []⟩
      effectiveBalanceIncrements := []
      totalActiveBalanceIncrements := 1
      churnLimit := 4
      exitQueueEpoch := 8
      exitQueueChurn := 0
      epoch := 3 }
  blockRoots := Vector.replicate 64 0xb0
  randaoMixes := Vector.replicate 64 0
  justificationBits := #v[true, true, false, false]
  previousJustifiedCheckpoint := ⟨1, 0xa1⟩
  currentJustifiedCheckpoint := ⟨2, 0xa2⟩
  epochCache :=
    { previousCommittees := ⟨[], [], 1⟩
      currentCommittees := ⟨[], [], 1⟩
      nextCommittees := ⟨[], [], 1⟩
      proposers := []
      syncParticipantReward := 0
      baseRewardPerIncrement := 0
      currentSyncCommitteeIndexed := none
      nextSyncCommitteeIndexed := none
      syncPeriod := 0 }

/-- Two thirds of the stake voted for the targets of epochs 2 and 3. -/
def justifyingProcess : EpochProcess where
  prevEpoch := 2
  currentEpoch := 3
  totalActiveStakeByIncrement := 3
  baseRewardPerIncrement := 0
  prevEpochUnslashedStake := ⟨2, 2, 2⟩
  currEpochUnslashedTargetStakeByIncrement := 2
  indicesToSlash := []
  indicesEligibleForActivationQueue := []
  indicesEligibleForActivation := []
  indicesToEject := []
  nextEpochShufflingActiveValidatorIndices := []
  nextEpochTotalActiveBalanceByIncrement := 0
  isActiveNextEpoch := []
  statuses := []
  balances := none

def justifiedNext : CachedBeaconStateAllForks (List Nat) :=
  { okOr justifiedState (processJustificationAndFinalization justifiedState justifyingProcess) with
    slot := 39 }

theorem justifiedNext_run : Relation.ReflTransGen EpochTransition justifiedState justifiedNext :=
  .single (.mk justifyingProcess ⟨rfl, rfl⟩ (eq_ok_okOr justifiedState (by decide +kernel))
    (by decide) rfl rfl rfl rfl)

/-- Epoch 2 is finalized, and nothing moves back. -/
theorem finality_never_reverts_justifiedNext :
    justifiedNext.finalizedCheckpoint = ⟨2, 0xa2⟩ ∧ FinalityOrder justifiedNext ∧
      FinalityLe justifiedState justifiedNext := by
  have h := @finality_never_reverts _ _ justifiedState _ ⟨by decide, by decide, by decide⟩
    (.inr (.inr ⟨0, by decide, by decide⟩)) justifiedNext_run
  exact ⟨by decide +kernel, h.1, h.2.1⟩

end Lodestar.StateTransition

import Lodestar.ForkChoice.FailedBlock

/-!
# Balances for the fork choice

`chain/blocks/importBlock.ts` up to its call of `onBlock`. It supplies justified
balances when the state has justified a later epoch than the store; `onBlock`
also replaces the justified checkpoint when the state has finalized a later one.
-/

namespace Lodestar.ForkChoice

open Lodestar.Base Lodestar.StateTransition

section Main

variable [Preset]

/-- The blocks of a merge transition block's payload, from the eth1 provider. -/
def powBlocks (getPowBlock : RootHex → Option PowBlockHex) (powBlockRootHex : RootHex)
    (executionStatus : ExecutionStatus) :
    Except String (Option PowBlockHex × Option PowBlockHex) := do
  let powBlock := getPowBlock powBlockRootHex
  if powBlock.isNone ∧ executionStatus ≠ .Syncing then
    throw s!"merge block parent POW block not found {toHexString powBlockRootHex}"
  let powBlockParent := powBlock.bind fun powBlock => getPowBlock powBlock.parentHash
  match powBlock, powBlockParent with
  | some powBlock, none =>
    throw s!"merge block parent's parent POW block not found {toHexString powBlock.parentHash}"
  | _, _ => return (powBlock, powBlockParent)

/-- `onBlockPrecachedData` of `importBlock`. `balances` are those of the state at the justified
checkpoint of the block's state. -/
def onBlockPrecachedData (this : ForkChoice) (block : BeaconBlock) (postState : BeaconState)
    (executionStatus : ExecutionStatus) (blockDelaySec : Rat)
    (balances : EffectiveBalanceIncrements) (getPowBlock : RootHex → Option PowBlockHex) :
    Except String OnBlockPrecachedData :=
  let data : OnBlockPrecachedData :=
    { executionStatus := some executionStatus
      blockDelaySec
      justifiedBalances :=
        if postState.currentJustifiedCheckpoint.epoch > this.fcStore.justifiedCheckpoint.epoch then
          some balances
        else none }
  match postState.latestExecutionPayloadHeader, block.executionPayload with
  | some header, some payload =>
    if isMergeTransitionBlock header payload then do
      let (powBlock, powBlockParent) ← powBlocks getPowBlock payload.parentHash executionStatus
      return { data with powBlock, powBlockParent, isMergeTransitionBlock := true }
    else return data
  | _, _ => return data

variable {this : ForkChoice} {block : BeaconBlock} {state : BeaconState}
  {executionStatus : ExecutionStatus} {blockDelaySec : Rat} {balances : EffectiveBalanceIncrements}
  {getPowBlock : RootHex → Option PowBlockHex} {data : OnBlockPrecachedData}

/-- The importer's only comparison. -/
theorem justifiedBalances_onBlockPrecachedData
    (h : onBlockPrecachedData this block state executionStatus blockDelaySec balances getPowBlock
      = .ok data) :
    data.justifiedBalances = if this.RaisesJustified state then some balances else none := by
  unfold onBlockPrecachedData at h
  dsimp only at h
  split at h
  · split at h
    · cases hpow : powBlocks getPowBlock _ executionStatus with
      | error e =>
        rw [hpow] at h
        cases h
      | ok blocks =>
        rw [hpow] at h
        cases h
        rfl
    · cases h
      rfl
  · cases h
    rfl

/-! ## Errors of `onBlock` -/

/-- The error of a call that lacks justified balances. -/
def IsUnable (error : ForkChoiceError) : Prop :=
  ∃ message, error = .UNABLE_TO_SET_JUSTIFIED_CHECKPOINT message

omit [Preset] in
theorem not_isUnable_getAncestor {blockRoot : RootHex} {slot : Nat} {e : ForkChoiceError}
    (h : this.getAncestor blockRoot slot = .error e) : ¬ IsUnable e := by
  unfold getAncestor at h
  rintro ⟨message, rfl⟩
  split at h
  · cases h
  · split at h
    · cases hnodes : this.protoArray.iterateAncestorNodes blockRoot with
      | error e =>
        rw [hnodes] at h
        cases h
      | ok nodes =>
        rw [hnodes] at h
        dsimp only [bind, Except.bind, Except.mapError] at h
        split at h <;> cases h
    · cases h

theorem not_isUnable_takesJustified {e : ForkChoiceError}
    (h : this.takesJustified state = .error e) : ¬ IsUnable e := by
  unfold takesJustified at h
  split at h
  · unfold shouldUpdateJustifiedCheckpoint at h
    split at h
    · cases h
    · dsimp only at h
      split at h
      · cases h
        rintro ⟨message, hmessage⟩
        cases hmessage
      · split at h
        · cases h
        · cases hancestor : this.getAncestor state.currentJustifiedCheckpoint.root
            (computeStartSlotAtEpoch this.fcStore.justifiedCheckpoint.epoch) with
          | error e' =>
            rw [hancestor] at h
            cases h
            exact not_isUnable_getAncestor hancestor
          | ok justifiedAncestor =>
            rw [hancestor] at h
            cases h
  · cases h

theorem not_isUnable_blockExecution {preCachedData : Option OnBlockPrecachedData}
    {e : ForkChoiceError} (h : blockExecution block state preCachedData = .error e) :
    ¬ IsUnable e := by
  rintro ⟨message, rfl⟩
  unfold blockExecution getPreMergeExecStatus getPostMergeExecStatus at h
  split at h
  · split at h <;> split at h <;> cases h
  · split at h <;> cases h

theorem not_isUnable_addBlock {preCachedData : Option OnBlockPrecachedData}
    {e : ForkChoiceError} {that : ForkChoice}
    (h : (addBlock block state preCachedData).run this = .error e that) : ¬ IsUnable e := by
  rw [addBlock_run] at h
  cases hexecution : blockExecution block state preCachedData with
  | error e' =>
    rw [hexecution] at h
    cases h
    exact not_isUnable_blockExecution hexecution
  | ok execution =>
    rw [hexecution] at h
    dsimp only at h
    split at h
    · cases h
      rintro ⟨message, hmessage⟩
      cases hmessage
    · cases h

/-! ## The balances that are needed -/

/-- `onBlock` does not lack balances, and has them whenever it replaces the justified
checkpoint. -/
structure SuppliesBalances (this : ForkChoice) (block : BeaconBlock) (state : BeaconState)
    (data : OnBlockPrecachedData) : Prop where
  not_throws : ∀ e that, (onBlock block state (some data)).run this = .error e that → ¬ IsUnable e
  supplied : ∀ that, (onBlock block state (some data)).run this = .ok ⟨⟩ that →
    that.fcStore.justifiedCheckpoint ≠ this.fcStore.justifiedCheckpoint →
      data.justifiedBalances.isSome

theorem suppliesBalances_of_isSome (hchecks : this.entryChecks block state (some data) = .ok ())
    (h : this.RaisesJustified state ∨ this.RaisesFinalized state →
      data.justifiedBalances.isSome) :
    SuppliesBalances this block state data := by
  obtain ⟨balances, hbalances⟩ : ∃ balances : EffectiveBalanceIncrements,
      this.RaisesJustified state ∨ this.RaisesFinalized state →
        (some data).bind (·.justifiedBalances) = some balances := by
    by_cases hraises : this.RaisesJustified state ∨ this.RaisesFinalized state
    · obtain ⟨balances, hsome⟩ := Option.isSome_iff_exists.mp (h hraises)
      exact ⟨balances, fun _ => hsome⟩
    · exact ⟨[], fun hr => absurd hr hraises⟩
  constructor
  · intro e that hrun
    rw [onBlock_run, hchecks] at hrun
    dsimp only at hrun
    rw [updateCheckpoints_run state _ hbalances] at hrun
    cases htakes : this.takesJustified state with
    | error e' =>
      rw [htakes] at hrun
      cases hrun
      exact not_isUnable_takesJustified htakes
    | ok takes =>
      rw [htakes] at hrun
      dsimp only at hrun
      rcases updateProposerBoost_run (this.withCheckpoints state balances takes) block
        (some data) with hboost | ⟨hnone, _⟩
      · rw [hboost] at hrun
        exact not_isUnable_addBlock hrun
      · cases hnone
  · intro that hrun hreplaced
    by_contra hnone
    have hneither : ¬ (this.RaisesJustified state ∨ this.RaisesFinalized state) :=
      fun hraises => hnone (h hraises)
    obtain ⟨_, balances, takes, execution, protoArray, htakes, _, rfl⟩ := onBlock_ok hrun
    have hnotakes : takes = false := by
      by_contra htrue
      rw [Bool.not_eq_false] at htrue
      exact hneither (.inl (raisesJustified_of_takes (htrue ▸ htakes)))
    apply hreplaced
    show ((this.withCheckpoints state balances takes).withBoost block
      (some data)).fcStore.justifiedCheckpoint = _
    rw [fcStore_withBoost, justifiedCheckpoint_withCheckpoints, if_neg]
    rw [hnotakes]
    exact fun hraises => hraises.elim Bool.false_ne_true fun hf => hneither (.inr hf)

/-- The importer's balances are there when `onBlock` needs them if and only if a state that has
finalized a later epoch than the store has justified a later one too. -/
theorem suppliesBalances_iff
    (hdata : onBlockPrecachedData this block state executionStatus blockDelaySec balances
      getPowBlock = .ok data)
    (hchecks : this.entryChecks block state (some data) = .ok ()) :
    SuppliesBalances this block state data ↔
      (this.RaisesFinalized state → this.RaisesJustified state) := by
  have hbalances := justifiedBalances_onBlockPrecachedData hdata
  constructor
  · intro hsupplies hfinalized
    by_contra hjustified
    rw [if_neg hjustified] at hbalances
    have hnone : (some data).bind (·.justifiedBalances) = none := hbalances
    have hrun : (onBlock block state (some data)).run this = .error noBalancesError
        (this.updateFinalized (toCheckpointWithHex state.finalizedCheckpoint)) := by
      rw [onBlock_run, hchecks]
      dsimp only
      rw [updateCheckpoints_of_raisesFinalized hjustified hfinalized hnone]
    exact hsupplies.not_throws _ _ hrun ⟨_, rfl⟩
  · intro h
    apply suppliesBalances_of_isSome hchecks
    rintro (hjustified | hfinalized)
    · rw [hbalances, if_pos hjustified]
      rfl
    · rw [hbalances, if_pos (h hfinalized)]
      rfl

end Main

attribute [local instance] minimal

/-- What the importer passes for a block before the merge. -/
def plainData (this : ForkChoice) (state : BeaconState) : OnBlockPrecachedData where
  executionStatus := some .PreMerge
  blockDelaySec := 5
  justifiedBalances := if this.RaisesJustified state then some [1] else none

/-- A branch whose state justifies epoch 2 and finalizes epoch 1 follows one that has justified
epoch 3. -/
theorem branchChoice_not_suppliesBalances :
    ¬ ∀ (this : ForkChoice) (block : BeaconBlock) (state : BeaconState)
      (executionStatus : ExecutionStatus) (blockDelaySec : Rat)
      (balances : EffectiveBalanceIncrements) (getPowBlock : RootHex → Option PowBlockHex)
      (data : OnBlockPrecachedData), this.Reachable →
      onBlockPrecachedData this block state executionStatus blockDelaySec balances getPowBlock
        = .ok data →
      this.entryChecks block state (some data) = .ok () →
        SuppliesBalances this block state data := by
  intro h
  have hchecks : branchChoice.entryChecks (plainBlock 25 5 4) (plainState 25 ⟨2, 1⟩ ⟨1, 0xaa⟩)
      (some (plainData branchChoice (plainState 25 ⟨2, 1⟩ ⟨1, 0xaa⟩))) = .ok () := by
    decide +kernel
  have hsupplies := h branchChoice (plainBlock 25 5 4) (plainState 25 ⟨2, 1⟩ ⟨1, 0xaa⟩) .PreMerge 5
    [1] (fun _ => none) _ branchChoice_reachable rfl hchecks
  have hthrows : errorOf ((onBlock (plainBlock 25 5 4) (plainState 25 ⟨2, 1⟩ ⟨1, 0xaa⟩)
      (some (plainData branchChoice (plainState 25 ⟨2, 1⟩ ⟨1, 0xaa⟩)))).run branchChoice)
        = some noBalancesError := by decide +kernel
  exact hsupplies.not_throws _ _ (eq_error_of_errorOf hthrows) ⟨_, rfl⟩

/-- A block of that branch that justifies epoch 4 as well. -/
theorem branchChoice_suppliesBalances :
    SuppliesBalances branchChoice (plainBlock 36 5 4) (plainState 36 ⟨4, 1⟩ ⟨1, 0xaa⟩)
      (plainData branchChoice (plainState 36 ⟨4, 1⟩ ⟨1, 0xaa⟩)) := by
  have hdata : onBlockPrecachedData branchChoice (plainBlock 36 5 4)
      (plainState 36 ⟨4, 1⟩ ⟨1, 0xaa⟩) .PreMerge 5 [1] (fun _ => none)
        = .ok (plainData branchChoice (plainState 36 ⟨4, 1⟩ ⟨1, 0xaa⟩)) := rfl
  have hchecks : branchChoice.entryChecks (plainBlock 36 5 4) (plainState 36 ⟨4, 1⟩ ⟨1, 0xaa⟩)
      (some (plainData branchChoice (plainState 36 ⟨4, 1⟩ ⟨1, 0xaa⟩))) = .ok () := by
    decide +kernel
  exact (suppliesBalances_iff hdata hchecks).mpr fun _ => by decide +kernel

end Lodestar.ForkChoice

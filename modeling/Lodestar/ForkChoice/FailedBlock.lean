import Lodestar.ForkChoice.Runs

/-!
# Blocks that are refused

`onBlock` writes the checkpoints and the boost between its checks, so a block
that is refused late leaves them changed. `NoLateError` says when it does not.
-/

namespace Lodestar.ForkChoice

open Lodestar.Base Lodestar.StateTransition

section Main

variable [Preset] {this : ForkChoice} {block : BeaconBlock} {state : BeaconState}
  {preCachedData : Option OnBlockPrecachedData} {balances : EffectiveBalanceIncrements}
  {takes : Bool}

/-- What a refused block is to leave alone. -/
structure SameStore (this this' : ForkChoice) : Prop where
  justifiedCheckpoint : this'.fcStore.justifiedCheckpoint = this.fcStore.justifiedCheckpoint
  bestJustifiedCheckpoint :
    this'.fcStore.bestJustifiedCheckpoint = this.fcStore.bestJustifiedCheckpoint
  finalizedCheckpoint : this'.fcStore.finalizedCheckpoint = this.fcStore.finalizedCheckpoint
  justifiedBalances : this'.justifiedBalances = this.justifiedBalances
  proposerBoostRoot : this'.proposerBoostRoot = this.proposerBoostRoot
  synced : this'.synced = this.synced
  protoArray : this'.protoArray = this.protoArray

omit [Preset] in
theorem SameStore.refl (this : ForkChoice) : SameStore this this :=
  ⟨rfl, rfl, rfl, rfl, rfl, rfl, rfl⟩

/-- A checkpoint or the boost is written, with a new value. -/
def Writes (this : ForkChoice) (block : BeaconBlock) (state : BeaconState)
    (preCachedData : Option OnBlockPrecachedData) (takes : Bool) : Prop :=
  this.RaisesBest state ∨ takes = true ∨ this.RaisesFinalized state ∨
    this.isTimely block preCachedData = true ∧
      ¬ (this.proposerBoostRoot = some block.hashTreeRoot ∧ this.synced = false)

/-- Where something is written, nothing that comes later throws. -/
structure NoLateError (this : ForkChoice) (block : BeaconBlock) (state : BeaconState)
    (preCachedData : Option OnBlockPrecachedData) : Prop where
  /-- `shouldUpdateJustifiedCheckpoint` does not throw once the best checkpoint is raised. -/
  best : ∀ e, this.takesJustified state = .error e → ¬ this.RaisesBest state
  /-- A later finalized checkpoint comes with balances. -/
  balances : ∀ takes, this.takesJustified state = .ok takes → this.RaisesFinalized state →
    (preCachedData.bind (·.justifiedBalances)).isSome
  /-- The execution status is one the block can have. -/
  execution : ∀ takes, this.takesJustified state = .ok takes →
    this.Writes block state preCachedData takes →
      (blockExecution block state preCachedData).isOk

/-! ## The checkpoints after the update -/

theorem bestJustifiedCheckpoint_withCheckpoints :
    (this.withCheckpoints state balances takes).fcStore.bestJustifiedCheckpoint
      = if this.RaisesBest state then toCheckpointWithHex state.currentJustifiedCheckpoint
        else this.fcStore.bestJustifiedCheckpoint := by
  rw [withCheckpoints, withFinalized, withBest]
  split_ifs <;> rfl

theorem finalizedCheckpoint_withCheckpoints :
    (this.withCheckpoints state balances takes).fcStore.finalizedCheckpoint
      = if this.RaisesFinalized state then toCheckpointWithHex state.finalizedCheckpoint
        else this.fcStore.finalizedCheckpoint := by
  by_cases hf : this.RaisesFinalized state
  · rw [withCheckpoints, if_pos (.inr hf), withFinalized,
      if_pos ((this.raisesFinalized_withBest state balances).mpr hf), if_pos hf]
    rfl
  · rw [withCheckpoints, withFinalized,
      if_neg fun h => hf ((this.raisesFinalized_withBest state balances).mp h), if_neg hf]
    split
    · exact finalizedCheckpoint_withBest state balances
    · exact finalizedCheckpoint_withBest state balances

theorem justifiedCheckpoint_withCheckpoints :
    (this.withCheckpoints state balances takes).fcStore.justifiedCheckpoint
      = if takes = true ∨ this.RaisesFinalized state then
          toCheckpointWithHex state.currentJustifiedCheckpoint
        else this.fcStore.justifiedCheckpoint := by
  rw [withCheckpoints, withFinalized, withBest]
  split_ifs <;> rfl

theorem withCheckpoints_of_not (hbest : ¬ this.RaisesBest state)
    (hfinalized : ¬ this.RaisesFinalized state) : this.withCheckpoints state balances false = this := by
  rw [withCheckpoints, withFinalized, withBest, if_neg hbest, if_neg hfinalized,
    if_neg fun h => h.elim Bool.false_ne_true hfinalized]

theorem epoch_lt_of_takes (h : this.takesJustified state = .ok takes) (htakes : takes = true) :
    this.fcStore.justifiedCheckpoint.epoch
      < (toCheckpointWithHex state.currentJustifiedCheckpoint).epoch :=
  raisesJustified_of_takes (htakes ▸ h)

/-- The writes before the execution status is looked at change nothing if and only if there are
none. -/
theorem sameStore_withBoost_iff (h : this.takesJustified state = .ok takes) :
    SameStore this ((this.withCheckpoints state balances takes).withBoost block preCachedData) ↔
      ¬ this.Writes block state preCachedData takes := by
  constructor
  · intro hsame hwrites
    have hbest := hsame.bestJustifiedCheckpoint
    have hfinalized := hsame.finalizedCheckpoint
    have hjustified := hsame.justifiedCheckpoint
    rw [fcStore_withBoost, bestJustifiedCheckpoint_withCheckpoints] at hbest
    rw [fcStore_withBoost, finalizedCheckpoint_withCheckpoints] at hfinalized
    rw [fcStore_withBoost, justifiedCheckpoint_withCheckpoints] at hjustified
    have hnobest : ¬ this.RaisesBest state := by
      intro hraises
      rw [if_pos hraises] at hbest
      exact hraises.2.ne (congrArg (·.epoch) hbest).symm
    have hnofinal : ¬ this.RaisesFinalized state := by
      intro hraises
      rw [if_pos hraises] at hfinalized
      exact hraises.ne (congrArg (·.epoch) hfinalized).symm
    have hnotakes : takes = false := by
      by_contra htakes
      have htakes : takes = true := by simpa using htakes
      rw [if_pos (.inl htakes)] at hjustified
      exact (epoch_lt_of_takes h htakes).ne (congrArg (·.epoch) hjustified).symm
    subst hnotakes
    rw [withCheckpoints_of_not hnobest hnofinal] at hsame
    rcases hwrites with hwrites | hwrites | hwrites | ⟨htimely, hnot⟩
    · exact hnobest hwrites
    · cases hwrites
    · exact hnofinal hwrites
    · rw [withBoost, if_pos htimely] at hsame
      exact hnot ⟨hsame.proposerBoostRoot.symm, hsame.synced.symm⟩
  · intro hno
    have hnotakes : takes = false := by
      by_contra htakes
      exact hno (.inr (.inl (by simpa using htakes)))
    subst hnotakes
    rw [withCheckpoints_of_not (fun h => hno (.inl h)) fun h => hno (.inr (.inr (.inl h))),
      withBoost]
    split
    · rename_i htimely
      have hboosted : this.proposerBoostRoot = some block.hashTreeRoot ∧ this.synced = false := by
        by_contra hnot
        exact hno (.inr (.inr (.inr ⟨htimely, hnot⟩)))
      exact ⟨rfl, rfl, rfl, rfl, hboosted.1.symm, hboosted.2.symm, rfl⟩
    · exact .refl this

/-! ## The call -/

/-- The end of `onBlock` throws only if the execution status is not one the block can have. -/
theorem addBlock_cases (block : BeaconBlock) (state : BeaconState)
    (preCachedData : Option OnBlockPrecachedData) (hw : this.protoArray.Wf) :
    (∃ this', (addBlock block state preCachedData).run this = .ok ⟨⟩ this' ∧
      (blockExecution block state preCachedData).isOk = true) ∨
    ∃ e, (addBlock block state preCachedData).run this = .error e this ∧
      (blockExecution block state preCachedData).isOk = false := by
  rw [addBlock_run]
  cases blockExecution block state preCachedData with
  | error e => exact .inr ⟨e, rfl, rfl⟩
  | ok execution =>
    obtain ⟨protoArray, hcall, -⟩ := hw.onBlock (protoBlock block state execution)
    exact .inl ⟨{ this with protoArray }, by dsimp only; rw [hcall], rfl⟩

theorem noLateError_of_error {e : ForkChoiceError} (h : this.takesJustified state = .error e) :
    this.NoLateError block state preCachedData ↔ ¬ this.RaisesBest state := by
  have hnot : ∀ takes, this.takesJustified state ≠ .ok takes := by
    intro takes htakes
    rw [h] at htakes
    cases htakes
  exact ⟨fun hno => hno.best e h,
    fun hbest => ⟨fun _ _ => hbest, fun takes ht => absurd ht (hnot takes),
      fun takes ht => absurd ht (hnot takes)⟩⟩

theorem noLateError_of_ok (h : this.takesJustified state = .ok takes)
    (hbalances : this.RaisesFinalized state →
      preCachedData.bind (·.justifiedBalances) = some balances) :
    this.NoLateError block state preCachedData ↔
      (this.Writes block state preCachedData takes →
        (blockExecution block state preCachedData).isOk = true) := by
  constructor
  · exact fun hno => hno.execution takes h
  · intro hexec
    refine ⟨fun e he => ?_, fun _ _ hf => ?_, fun takes' h' => ?_⟩
    · rw [h] at he
      cases he
    · rw [hbalances hf]
      rfl
    · obtain rfl := Except.ok.inj (h.symm.trans h')
      exact hexec

/-- With balances at hand, only `shouldUpdateJustifiedCheckpoint` and the end of the call throw
late. -/
theorem failsClean_iff_of_balances (hw : this.protoArray.Wf)
    (hchecks : this.entryChecks block state preCachedData = .ok ())
    (hbalances : this.RaisesJustified state ∨ this.RaisesFinalized state →
      preCachedData.bind (·.justifiedBalances) = some balances)
    (hrun : (updateCheckpoints state preCachedData).run this =
      match this.takesJustified state with
      | .ok takes => .ok ⟨⟩ (this.withCheckpoints state balances takes)
      | .error e => .error e (this.withBest state balances)) :
    (∀ e this', (onBlock block state preCachedData).run this = .error e this' →
      SameStore this this') ↔ this.NoLateError block state preCachedData := by
  rw [onBlock_run, hchecks]
  dsimp only
  rw [hrun]
  cases htakes : this.takesJustified state with
  | error e =>
    dsimp only
    rw [forall_error_iff, noLateError_of_error htakes, withBest]
    split
    · rename_i hbest
      refine ⟨fun hsame => ?_, fun h => absurd hbest h⟩
      exact absurd (congrArg (·.epoch) hsame.bestJustifiedCheckpoint) hbest.2.ne'
    · rename_i hbest
      exact ⟨fun _ => hbest, fun _ => .refl this⟩
  | ok takes =>
    have harray : ((this.withCheckpoints state balances takes).withBoost block
        preCachedData).protoArray = this.protoArray := by
      have hframe : Frame protoArray := ⟨fun _ _ _ => rfl, fun _ _ _ => rfl, fun _ _ => rfl⟩
      rw [withBoost]
      split <;> exact hframe.withCheckpoints state balances takes
    dsimp only
    rw [noLateError_of_ok htakes fun hf => hbalances (.inr hf)]
    rcases updateProposerBoost_run (this.withCheckpoints state balances takes) block
      preCachedData with hboost | ⟨hnone, e, hboost⟩ <;> rw [hboost] <;> dsimp only
    · rcases addBlock_cases block state preCachedData (harray ▸ hw) with ⟨this', hadd, hexec⟩ | ⟨e, hadd, hexec⟩ <;> rw [hadd, hexec]
      · exact ⟨fun _ _ => rfl, fun _ e this' h => (by cases h)⟩
      · rw [forall_error_iff, sameStore_withBoost_iff htakes]
        exact ⟨fun hno hwrites => absurd hwrites hno,
          fun h hwrites => Bool.false_ne_true (h hwrites)⟩
    · -- without any data there are no balances, so nothing is written
      subst hnone
      have hneither : ¬ (this.RaisesJustified state ∨ this.RaisesFinalized state) := by
        intro hraises
        cases hbalances hraises
      have hnotakes : takes = false := by
        by_contra htrue
        have htrue : takes = true := by simpa using htrue
        exact hneither (.inl (raisesJustified_of_takes (htrue ▸ htakes)))
      have hno : ¬ this.Writes block state none takes := by
        rintro (h | h | h | ⟨htimely, -⟩)
        · exact hneither (.inl h.1)
        · rw [hnotakes] at h
          cases h
        · exact hneither (.inr h)
        · rw [isTimely, Option.any_none, Bool.and_false] at htimely
          cases htimely
      rw [forall_error_iff, hnotakes, withCheckpoints_of_not (fun h => hneither (.inl h.1))
        fun h => hneither (.inr h)]
      exact ⟨fun _ hwrites => absurd (hnotakes ▸ hwrites) hno, fun _ => .refl this⟩

/-- A refused block leaves the checkpoints, the balances, the boost and the proto array as they
were if and only if nothing throws after something was written. -/
theorem onBlock_failsClean_iff (hr : this.Reachable) (block : BeaconBlock) (state : BeaconState)
    (preCachedData : Option OnBlockPrecachedData) :
    (∀ e this', (onBlock block state preCachedData).run this = .error e this' →
      SameStore this this') ↔
    (this.entryChecks block state preCachedData = .ok () →
      (this.RaisesJustified state → (preCachedData.bind (·.justifiedBalances)).isSome) →
        this.NoLateError block state preCachedData) := by
  cases hchecks : this.entryChecks block state preCachedData with
  | error e =>
    rw [onBlock_run, hchecks]
    constructor
    · intro _ hok
      cases hok
    · rintro - e' this' ⟨⟩
      exact .refl this
  | ok u =>
    rcases updateCheckpoints_cases this state preCachedData with
      ⟨hj, hnone, hrun⟩ | ⟨hj, hf, hnone, hrun⟩ | ⟨balances, hbalances, hrun⟩
    · -- the first check for balances comes before the first write
      rw [onBlock_run, hchecks]
      dsimp only
      rw [hrun, hnone]
      constructor
      · intro _ _ hsome
        cases hsome hj
      · rintro - e' this' ⟨⟩
        exact .refl this
    · -- the second one comes after the finalized checkpoint is written
      rw [onBlock_run, hchecks]
      dsimp only
      rw [hrun, hnone]
      constructor
      · intro hclean
        have hsame := (hclean _ _ rfl).finalizedCheckpoint
        exact absurd (congrArg (·.epoch) hsame) hf.ne'
      · intro hno
        have h := (hno rfl (fun h => absurd h hj)).balances false (if_neg hj) hf
        rw [hnone] at h
        cases h
    · have hhas : this.RaisesJustified state →
          (preCachedData.bind (·.justifiedBalances)).isSome := fun hj => by
        rw [hbalances (.inl hj)]
        rfl
      rw [failsClean_iff_of_balances hr.protoArray_reachable.wf hchecks hbalances hrun]
      exact ⟨fun h _ _ => h, fun h => h rfl hhas⟩

end Main

/-! ## A block that is refused late -/

attribute [local instance] minimal

/-- Two branches from the block `1` of epoch 1, in whose state epoch 1 gets justified: `2` and `3`
justify epoch 3, and `4` is to be followed by a block that justifies epoch 2. -/
def branchCalls : List Call :=
  [.updateTime 40,
    .onBlock (plainBlock 15 1 0xaa) (plainState 15 ⟨0, 0xaa⟩ ⟨0, 0xaa⟩) (some (lateData none)),
    .onBlock (plainBlock 31 2 1) (plainState 31 ⟨1, 0xaa⟩ ⟨0, 0xaa⟩) (some (lateData (some [1]))),
    .onBlock (plainBlock 33 3 2) (plainState 33 ⟨3, 1⟩ ⟨0, 0xaa⟩) (some (lateData (some [1]))),
    .onBlock (plainBlock 23 4 1) (plainState 23 ⟨1, 0xaa⟩ ⟨0, 0xaa⟩) (some (lateData none))]

def branchChoice : ForkChoice := (genesisChoice true).afterCalls branchCalls

theorem branchChoice_reachable : branchChoice.Reachable :=
  Reachable.afterCalls ⟨_, genesisChoice_created true, .refl⟩ branchCalls

/-- The block that justifies epoch 2 finalizes epoch 1. It comes without balances, as the store
has justified epoch 3, and is refused for that when the finalized checkpoint is written. -/
theorem branchChoice_not_same :
    branchChoice.Reachable ∧
      ∃ e this', (onBlock (plainBlock 25 5 4) (plainState 25 ⟨2, 1⟩ ⟨1, 0xaa⟩)
          (some (lateData none))).run branchChoice = .error e this' ∧
        ¬ SameStore branchChoice this' := by
  have hthrows : errorOf ((onBlock (plainBlock 25 5 4) (plainState 25 ⟨2, 1⟩ ⟨1, 0xaa⟩)
      (some (lateData none))).run branchChoice) = some noBalancesError := by decide +kernel
  have hwritten : (stateOf ((onBlock (plainBlock 25 5 4) (plainState 25 ⟨2, 1⟩ ⟨1, 0xaa⟩)
      (some (lateData none))).run branchChoice)).fcStore.finalizedCheckpoint.epoch
        ≠ branchChoice.fcStore.finalizedCheckpoint.epoch := by decide +kernel
  refine ⟨branchChoice_reachable, _, _, eq_error_of_errorOf hthrows, fun hsame => ?_⟩
  exact hwritten (congrArg (·.epoch) hsame.finalizedCheckpoint)

/-- A block of a later slot is refused at once. -/
theorem branchChoice_same :
    ∃ e this', (onBlock (plainBlock 41 5 4) (plainState 41 ⟨2, 1⟩ ⟨1, 0xaa⟩)
        (some (lateData none))).run branchChoice = .error e this' ∧
      SameStore branchChoice this' := by
  have hthrows : errorOf ((onBlock (plainBlock 41 5 4) (plainState 41 ⟨2, 1⟩ ⟨1, 0xaa⟩)
      (some (lateData none))).run branchChoice) = some (.INVALID_BLOCK (.FUTURE_SLOT 40 41)) := by
    decide +kernel
  have hrefused : (branchChoice.entryChecks (plainBlock 41 5 4) (plainState 41 ⟨2, 1⟩ ⟨1, 0xaa⟩)
      (some (lateData none))).isOk = false := by decide +kernel
  have hclean := (onBlock_failsClean_iff branchChoice_reachable (plainBlock 41 5 4)
    (plainState 41 ⟨2, 1⟩ ⟨1, 0xaa⟩) (some (lateData none))).mpr fun hok => by
      rw [hok] at hrefused
      cases hrefused
  have hrun := eq_error_of_errorOf hthrows
  exact ⟨_, _, hrun, hclean _ _ hrun⟩

end Lodestar.ForkChoice

import Lodestar.ForkChoice.FailedBlock

/-!
# The checkpoints along a run

A fork choice starts at an anchor (`initializeForkChoice`) and moves its three
checkpoints in `onBlock` and at the start of an epoch. Their epochs stay in
order, and the finalized one does not go back. The justified block is the
finalized one or below it if the states' checkpoints are on the chains of their
blocks (`OnChain`).
-/

namespace Lodestar.ForkChoice

open Lodestar.Base Lodestar.StateTransition

section Main

variable [Preset] {this this' : ForkChoice}

/-! ## The anchor -/

/-- What `initializeForkChoice` takes from the anchor state. -/
structure Anchor where
  /-- `computeAnchorCheckpoint(config, state)`. -/
  blockHeader : BeaconBlockHeader
  checkpoint : Checkpoint
  /-- Only bellatrix states have one. -/
  latestExecutionPayloadHeader : Option ExecutionPayloadHeader
  /-- `getEffectiveBalanceIncrementsZeroInactive(state)`. -/
  justifiedBalances : EffectiveBalanceIncrements

namespace Anchor

/-- Past genesis, the chain is not to justify a block that does not finalize the anchor. -/
def justifiedCheckpoint (anchor : Anchor) : Checkpoint :=
  { anchor.checkpoint with
    epoch := if anchor.checkpoint.epoch = 0 then anchor.checkpoint.epoch
      else anchor.checkpoint.epoch + 1 }

def execution (anchor : Anchor) : BlockExecution :=
  match anchor.latestExecutionPayloadHeader with
  | some header =>
    if isMergeTransitionComplete header then
      if anchor.blockHeader.slot = GENESIS_SLOT then .valid header.blockHash
      else .syncing header.blockHash
    else .preMerge
  | none => .preMerge

def protoBlock (anchor : Anchor) : IProtoBlock where
  slot := anchor.blockHeader.slot
  blockRoot := anchor.checkpoint.root
  parentRoot := anchor.blockHeader.parentRoot
  stateRoot := anchor.blockHeader.stateRoot
  targetRoot := anchor.checkpoint.root
  justifiedEpoch := anchor.justifiedCheckpoint.epoch
  justifiedRoot := anchor.justifiedCheckpoint.root
  finalizedEpoch := anchor.checkpoint.epoch
  finalizedRoot := anchor.checkpoint.root
  execution := anchor.execution

end Anchor

/-- `chain/forkChoice/index.ts`. -/
def initializeForkChoice (config : ChainConfig) (currentSlot : Nat) (anchor : Anchor)
    (proposerBoostEnabled : Bool) : Except ForkChoiceError ForkChoice := do
  let protoArray ← (ProtoArray.initializeProtoArray anchor.protoBlock).mapError .protoArray
  new config (ForkChoiceStore currentSlot anchor.justifiedCheckpoint anchor.checkpoint) protoArray
    anchor.justifiedBalances proposerBoostEnabled

/-- A fork choice at its anchor. -/
def Anchored (this : ForkChoice) : Prop :=
  ∃ (config : ChainConfig) (currentSlot : Nat) (anchor : Anchor) (proposerBoostEnabled : Bool),
    initializeForkChoice config currentSlot anchor proposerBoostEnabled = .ok this

/-! ## Runs -/

/-- A block or a clock tick that goes through; the state's checkpoints are in order, and the block
is one of the `Allowed` ones. -/
inductive ChainStep (Allowed : ForkChoice → BeaconBlock → BeaconState → Prop)
    (this this' : ForkChoice) : Prop
  | onBlock {block : BeaconBlock} {state : BeaconState}
      {preCachedData : Option OnBlockPrecachedData} {u : Unit}
      (hepochs : state.finalizedCheckpoint.epoch ≤ state.currentJustifiedCheckpoint.epoch)
      (hallowed : Allowed this block state)
      (hcall : (onBlock block state preCachedData).run this = .ok u this')
  | updateTime {currentSlot : Nat} {u : Unit}
      (hcall : (updateTime currentSlot).run this = .ok u this')

/-- Any block. -/
def AnyBlock (_ : ForkChoice) (_ : BeaconBlock) (_ : BeaconState) : Prop :=
  True

/-- The checkpoint is the block of the chain above the block at the start of its epoch. -/
def IsOnChain (this : ForkChoice) (block : BeaconBlock) (checkpoint : Checkpoint) : Prop :=
  this.getAncestor block.parentRoot (computeStartSlotAtEpoch checkpoint.epoch)
    = .ok checkpoint.root

/-- The state's checkpoints of later epochs than the finalized one are on the chain of the
block. -/
def OnChain (this : ForkChoice) (block : BeaconBlock) (state : BeaconState) : Prop :=
  ∀ checkpoint ∈ [state.currentJustifiedCheckpoint, state.finalizedCheckpoint],
    this.fcStore.finalizedCheckpoint.epoch < checkpoint.epoch → this.IsOnChain block checkpoint

instance (this : ForkChoice) (block : BeaconBlock) (state : BeaconState) :
    Decidable (AnyBlock this block state) :=
  inferInstanceAs (Decidable True)

instance (this : ForkChoice) (block : BeaconBlock) (state : BeaconState) :
    Decidable (OnChain this block state) :=
  inferInstanceAs (Decidable (∀ checkpoint ∈
    [state.currentJustifiedCheckpoint, state.finalizedCheckpoint],
      this.fcStore.finalizedCheckpoint.epoch < checkpoint.epoch →
        this.getAncestor block.parentRoot (computeStartSlotAtEpoch checkpoint.epoch)
          = .ok checkpoint.root))

/-! ## The order of the epochs -/

structure EpochsInOrder (store : IForkChoiceStore) : Prop where
  justified_le : store.justifiedCheckpoint.epoch ≤ store.bestJustifiedCheckpoint.epoch
  finalized_le : store.finalizedCheckpoint.epoch ≤ store.justifiedCheckpoint.epoch

theorem fcStore_of_onBlock {block : BeaconBlock} {state : BeaconState}
    {preCachedData : Option OnBlockPrecachedData} {u : Unit}
    (hcall : (onBlock block state preCachedData).run this = .ok u this') :
    ∃ balances takes, this.takesJustified state = .ok takes ∧
      this'.fcStore = (this.withCheckpoints state balances takes).fcStore := by
  obtain ⟨-, balances, takes, execution, protoArray, htakes, -, rfl⟩ := onBlock_ok hcall
  exact ⟨balances, takes, htakes, fcStore_withBoost block preCachedData⟩

theorem EpochsInOrder.withCheckpoints (h : EpochsInOrder this.fcStore) {state : BeaconState}
    {balances : EffectiveBalanceIncrements} {takes : Bool}
    (hepochs : state.finalizedCheckpoint.epoch ≤ state.currentJustifiedCheckpoint.epoch)
    (htakes : this.takesJustified state = .ok takes) :
    EpochsInOrder (this.withCheckpoints state balances takes).fcStore := by
  obtain ⟨hbest, hfinal⟩ := h
  have htakes' : takes = true → this.RaisesJustified state :=
    fun heq => raisesJustified_of_takes (heq ▸ htakes)
  constructor
  · rw [justifiedCheckpoint_withCheckpoints, bestJustifiedCheckpoint_withCheckpoints]
    split_ifs with hj hb hb
    · exact le_refl _
    · -- the best checkpoint is at least the store's, and at least a later one of the state
      by_contra hlt
      rw [toCheckpointWithHex_epoch] at hlt
      exact hb ⟨by omega, by omega⟩
    · exact hbest.trans hb.2.le
    · exact hbest
  · rw [justifiedCheckpoint_withCheckpoints, finalizedCheckpoint_withCheckpoints]
    split_ifs with hf hj hj
    · exact hepochs
    · exact absurd (.inr hf) hj
    · have hlt := htakes' (hj.resolve_right hf)
      rw [toCheckpointWithHex_epoch]
      omega
    · exact hfinal

theorem finalizedEpoch_le_withCheckpoints (state : BeaconState)
    (balances : EffectiveBalanceIncrements) (takes : Bool) :
    this.fcStore.finalizedCheckpoint.epoch
      ≤ (this.withCheckpoints state balances takes).fcStore.finalizedCheckpoint.epoch := by
  rw [finalizedCheckpoint_withCheckpoints]
  split_ifs with hf
  · exact hf.le
  · exact le_refl _

theorem EpochsInOrder.step {Allowed : ForkChoice → BeaconBlock → BeaconState → Prop}
    (h : EpochsInOrder this.fcStore) (hstep : ChainStep Allowed this this') :
    EpochsInOrder this'.fcStore := by
  cases hstep with
  | onBlock hepochs _ hcall =>
    obtain ⟨balances, takes, htakes, heq⟩ := fcStore_of_onBlock hcall
    rw [heq]
    exact h.withCheckpoints hepochs htakes
  | updateTime hcall =>
    refine updateTime_preserves (P := fun this => EpochsInOrder this.fcStore) ?_ ?_ ?_ hcall h
    · intro this time h
      rw [fcStore_setTime]
      exact ⟨h.justified_le, h.finalized_le⟩
    · intro this pulls hpulls h
      rw [fcStore_pulledUp]
      cases pulls with
      | false => exact h
      | true => exact ⟨le_refl _, h.finalized_le.trans (pullsUp_eq_true hpulls).1.le⟩
    · intro this h
      rwa [fcStore_drained]

theorem finalizedEpoch_le_of_step {Allowed : ForkChoice → BeaconBlock → BeaconState → Prop}
    (hstep : ChainStep Allowed this this') :
    this.fcStore.finalizedCheckpoint.epoch ≤ this'.fcStore.finalizedCheckpoint.epoch := by
  cases hstep with
  | onBlock _ _ hcall =>
    obtain ⟨balances, takes, -, heq⟩ := fcStore_of_onBlock hcall
    rw [heq]
    exact finalizedEpoch_le_withCheckpoints _ balances takes
  | updateTime hcall =>
    refine updateTime_preserves (P := fun that =>
      this.fcStore.finalizedCheckpoint.epoch ≤ that.fcStore.finalizedCheckpoint.epoch) ?_ ?_ ?_
      hcall (le_refl _)
    · intro that time h
      rwa [fcStore_setTime]
    · intro that pulls _ h
      rwa [fcStore_pulledUp]
    · intro that h
      rwa [fcStore_drained]

/-! ## The justified block -/

/-- The justified block is the finalized one or below it. -/
def JustifiedDescends (this : ForkChoice) : Prop :=
  this.protoArray.IsDescendant this.fcStore.finalizedCheckpoint.rootHex
    this.fcStore.justifiedCheckpoint.rootHex

omit [Preset] in
theorem JustifiedDescends.congr (h : this.JustifiedDescends)
    (harray : this'.protoArray = this.protoArray)
    (hfinalized : this'.fcStore.finalizedCheckpoint = this.fcStore.finalizedCheckpoint)
    (hjustified : this'.fcStore.justifiedCheckpoint = this.fcStore.justifiedCheckpoint) :
    this'.JustifiedDescends := by
  rw [JustifiedDescends, harray, hfinalized, hjustified]
  exact h

theorem getAncestor_of_entryChecks {block : BeaconBlock} {state : BeaconState}
    {preCachedData : Option OnBlockPrecachedData}
    (h : this.entryChecks block state preCachedData = .ok ()) :
    this.getAncestor block.parentRoot
        (computeStartSlotAtEpoch this.fcStore.finalizedCheckpoint.epoch)
      = .ok this.fcStore.finalizedCheckpoint.rootHex := by
  have hcheck : this.checkBlock block = .ok () := by
    rw [entryChecks] at h
    cases hcheck : this.checkBlock block with
    | ok u => rfl
    | error e =>
      rw [hcheck] at h
      cases h
  rw [checkBlock] at hcheck
  cases hroot : this.getAncestor block.parentRoot
      (computeStartSlotAtEpoch this.fcStore.finalizedCheckpoint.epoch) with
  | error e =>
    exfalso
    simp only [hroot] at hcheck
    revert hcheck
    split_ifs <;> exact nofun
  | ok root =>
    simp only [hroot] at hcheck
    by_cases heq : root = this.fcStore.finalizedCheckpoint.rootHex
    · rw [heq]
    · exfalso
      revert hcheck
      simp only [bind, Except.bind, if_pos (show root ≠ _ from heq)]
      split_ifs <;> exact nofun

/-- The new checkpoints are on the chain of the block, the justified one above the finalized
one. -/
theorem isDescendant_withCheckpoints (ht : this.protoArray.Tree) (h : this.JustifiedDescends)
    (hord : EpochsInOrder this.fcStore) {block : BeaconBlock} {state : BeaconState}
    (balances : EffectiveBalanceIncrements) {takes : Bool}
    (hepochs : state.finalizedCheckpoint.epoch ≤ state.currentJustifiedCheckpoint.epoch)
    (hchain : OnChain this block state)
    (hfinal : this.getAncestor block.parentRoot
        (computeStartSlotAtEpoch this.fcStore.finalizedCheckpoint.epoch)
      = .ok this.fcStore.finalizedCheckpoint.rootHex)
    (htakes : this.takesJustified state = .ok takes) :
    this.protoArray.IsDescendant
      (this.withCheckpoints state balances takes).fcStore.finalizedCheckpoint.rootHex
      (this.withCheckpoints state balances takes).fcStore.justifiedCheckpoint.rootHex := by
  have hjustified : this.fcStore.finalizedCheckpoint.epoch < state.currentJustifiedCheckpoint.epoch →
      this.IsOnChain block state.currentJustifiedCheckpoint :=
    hchain _ (List.mem_cons_self ..)
  rw [justifiedCheckpoint_withCheckpoints, finalizedCheckpoint_withCheckpoints]
  by_cases hf : this.RaisesFinalized state
  · rw [if_pos hf, if_pos (.inr hf)]
    have hfinalized : this.IsOnChain block state.finalizedCheckpoint :=
      hchain _ (List.mem_cons_of_mem _ (List.mem_cons_self ..)) hf
    exact isDescendant_of_getAncestor ht (hjustified (hf.trans_le hepochs)) hfinalized
      (computeStartSlotAtEpoch_mono hepochs)
  · rw [if_neg hf]
    split
    · rename_i hor
      have hlt := raisesJustified_of_takes (hor.resolve_right hf ▸ htakes)
      have hlater := hord.finalized_le.trans_lt hlt
      exact isDescendant_of_getAncestor ht (hjustified hlater) hfinal
        (computeStartSlotAtEpoch_mono hlater.le)
    · exact h

theorem JustifiedDescends.step (hw : this.protoArray.Wf) (h : this.JustifiedDescends)
    (hord : EpochsInOrder this.fcStore) (hstep : ChainStep OnChain this this') :
    this'.JustifiedDescends := by
  cases hstep with
  | onBlock hepochs hchain hcall =>
    obtain ⟨hchecks, balances, takes, execution, protoArray, htakes, harray, rfl⟩ := onBlock_ok hcall
    have hdesc := isDescendant_withCheckpoints hw.toTree h hord balances hepochs hchain
      (getAncestor_of_entryChecks hchecks) htakes
    have hdesc' := hdesc.onBlock hw harray
    rw [JustifiedDescends]
    simpa only [fcStore_withBoost] using hdesc'
  | updateTime hcall =>
    have hkeeps : this'.protoArray.Tree ∧ this'.JustifiedDescends := by
      refine updateTime_preserves (P := fun this => this.protoArray.Tree ∧ this.JustifiedDescends)
        ?_ ?_ ?_ hcall ⟨hw.toTree, h⟩
      · rintro this time ⟨ht, h⟩
        exact ⟨by rwa [protoArray_setTime], h.congr (protoArray_setTime time)
          (by rw [fcStore_setTime]) (by rw [fcStore_setTime])⟩
      · rintro this pulls hpulls ⟨ht, h⟩
        refine ⟨by rwa [protoArray_pulledUp], ?_⟩
        cases pulls with
        | false => exact h
        | true =>
          rw [JustifiedDescends, protoArray_pulledUp, fcStore_pulledUp]
          exact isDescendant_of_getAncestor_self ht (pullsUp_eq_true hpulls).2
      · rintro this ⟨ht, h⟩
        exact ⟨by rwa [protoArray_drained], h.congr protoArray_drained
          (by rw [fcStore_drained]) (by rw [fcStore_drained])⟩
    exact hkeeps.2

/-! ## Whole runs -/

theorem new_ok {config : ChainConfig} {fcStore : IForkChoiceStore} {protoArray : ProtoArray}
    {justifiedBalances : EffectiveBalanceIncrements} {proposerBoostEnabled : Bool}
    (h : new config fcStore protoArray justifiedBalances proposerBoostEnabled = .ok this) :
    this.fcStore = fcStore ∧ this.queuedAttestations = [] ∧
      (this.protoArray = protoArray ∨
        ∃ changes, protoArray.applyScoreChanges changes = .ok this.protoArray) := by
  obtain ⟨node, hrun⟩ := updateHead_of_new h
  exact updateHead_ok hrun

theorem initializeForkChoice_ok {config : ChainConfig} {currentSlot : Nat} {anchor : Anchor}
    {proposerBoostEnabled : Bool}
    (h : initializeForkChoice config currentSlot anchor proposerBoostEnabled = .ok this) :
    ∃ protoArray, ProtoArray.initializeProtoArray anchor.protoBlock = .ok protoArray ∧
      this.fcStore = ForkChoiceStore currentSlot anchor.justifiedCheckpoint anchor.checkpoint ∧
      Created this ∧
      (this.protoArray = protoArray ∨
        ∃ changes, protoArray.applyScoreChanges changes = .ok this.protoArray) := by
  rw [initializeForkChoice] at h
  cases harray : ProtoArray.initializeProtoArray anchor.protoBlock with
  | error e =>
    rw [harray] at h
    cases h
  | ok protoArray =>
    rw [harray] at h
    obtain ⟨hstore, -, hmoved⟩ := new_ok h
    refine ⟨protoArray, rfl, hstore, ?_, hmoved⟩
    exact ⟨config, currentSlot, _, _, protoArray, anchor.justifiedBalances, proposerBoostEnabled,
      ⟨_, _, _, _, _, .single (.onBlock _ harray)⟩, h⟩

theorem exists_of_anchored (h : Anchored this) :
    ∃ (anchor : Anchor) (protoArray : ProtoArray) (currentSlot : Nat),
      ProtoArray.initializeProtoArray anchor.protoBlock = .ok protoArray ∧
      this.fcStore = ForkChoiceStore currentSlot anchor.justifiedCheckpoint anchor.checkpoint ∧
      Created this ∧
      (this.protoArray = protoArray ∨
        ∃ changes, protoArray.applyScoreChanges changes = .ok this.protoArray) := by
  obtain ⟨config, currentSlot, anchor, boost, hinit⟩ := h
  obtain ⟨protoArray, hparts⟩ := initializeForkChoice_ok hinit
  exact ⟨anchor, protoArray, currentSlot, hparts⟩

theorem Anchored.epochsInOrder (h : Anchored this) : EpochsInOrder this.fcStore := by
  obtain ⟨anchor, -, currentSlot, -, hstore, -, -⟩ := exists_of_anchored h
  rw [hstore]
  refine ⟨le_refl _, ?_⟩
  change anchor.checkpoint.epoch
    ≤ if anchor.checkpoint.epoch = 0 then anchor.checkpoint.epoch else anchor.checkpoint.epoch + 1
  split <;> omega

omit [Preset] in
theorem getElem?_indices_initializeProtoArray {block : IProtoBlock} {protoArray : ProtoArray}
    (h : ProtoArray.initializeProtoArray block = .ok protoArray) :
    protoArray.indices[block.blockRoot]? = some 0 := by
  rw [ProtoArray.initializeProtoArray] at h
  rcases ProtoArray.onBlock_eq (ProtoArray.Wf.empty ..) { block with targetRoot := block.blockRoot }
    with ⟨hknown, -⟩ | ⟨-, l, -, -, heq⟩
  · simp [ProtoArray.empty] at hknown
  · cases h.symm.trans heq
    exact Std.TreeMap.getElem?_insert_self

theorem Anchored.justifiedDescends (h : Anchored this) : this.JustifiedDescends := by
  obtain ⟨anchor, protoArray, currentSlot, hinit, hstore, -, hmoved⟩ := exists_of_anchored h
  have hindex := getElem?_indices_initializeProtoArray hinit
  have hroot : protoArray.IsDescendant anchor.checkpoint.root anchor.checkpoint.root :=
    .refl hindex
  rw [JustifiedDescends, hstore]
  rcases hmoved with heq | ⟨changes, hcall⟩
  · rw [heq]
    exact hroot
  · have hwf : protoArray.Wf := ProtoArray.Reachable.wf ⟨_, _, _, _, _, .single (.onBlock _ hinit)⟩
    exact hroot.applyScoreChanges hwf hcall
theorem ChainStep.reachable {Allowed : ForkChoice → BeaconBlock → BeaconState → Prop}
    (h : this.Reachable) (hstep : ChainStep Allowed this this') : this'.Reachable := by
  refine h.step ?_
  cases hstep with
  | onBlock _ _ hcall => exact ⟨.onBlock _ _ _, congrArg stateOf hcall⟩
  | updateTime hcall => exact ⟨.updateTime _, congrArg stateOf hcall⟩

/-- From the anchor, the epochs of the best justified, the justified and the finalized checkpoint
stay in this order and the last one does not go back. If the states' checkpoints are on the chains
of their blocks, the justified block is the finalized one or below it. -/
theorem checkpoints_of_run {start : ForkChoice} (hstart : Anchored start) :
    (∀ this, Relation.ReflTransGen (ChainStep AnyBlock) start this →
      (this.fcStore.justifiedCheckpoint.epoch ≤ this.fcStore.bestJustifiedCheckpoint.epoch ∧
        this.fcStore.finalizedCheckpoint.epoch ≤ this.fcStore.justifiedCheckpoint.epoch) ∧
      ∀ this', ChainStep AnyBlock this this' →
        this.fcStore.finalizedCheckpoint.epoch ≤ this'.fcStore.finalizedCheckpoint.epoch) ∧
    ∀ this, Relation.ReflTransGen (ChainStep OnChain) start this →
      this.protoArray.hasBlock this.fcStore.justifiedCheckpoint.rootHex = true →
        this.protoArray.IsDescendant this.fcStore.finalizedCheckpoint.rootHex
          this.fcStore.justifiedCheckpoint.rootHex := by
  constructor
  · intro this hrun
    have horder : EpochsInOrder this.fcStore := by
      induction hrun with
      | refl => exact hstart.epochsInOrder
      | tail _ hstep ih => exact ih.step hstep
    exact ⟨⟨horder.justified_le, horder.finalized_le⟩, fun this' => finalizedEpoch_le_of_step⟩
  · intro this hrun
    have hkeeps : this.Reachable ∧ EpochsInOrder this.fcStore ∧ this.JustifiedDescends := by
      induction hrun with
      | refl =>
        obtain ⟨-, -, -, -, -, hcreated, -⟩ := exists_of_anchored hstart
        exact ⟨⟨start, hcreated, .refl⟩, hstart.epochsInOrder, hstart.justifiedDescends⟩
      | tail _ hstep ih =>
        obtain ⟨hr, horder, hdesc⟩ := ih
        exact ⟨hstep.reachable hr, horder.step hstep,
          hdesc.step hr.protoArray_reachable.wf horder hstep⟩
    exact fun _ => hkeeps.2.2

/-- The call is a step of a run. -/
def IsChainCall (Allowed : ForkChoice → BeaconBlock → BeaconState → Prop) (this : ForkChoice) :
    Call → Prop
  | .onBlock block state preCachedData =>
    errorOf ((onBlock block state preCachedData).run this) = none ∧
      state.finalizedCheckpoint.epoch ≤ state.currentJustifiedCheckpoint.epoch ∧
      Allowed this block state
  | .updateTime currentSlot => errorOf ((updateTime currentSlot).run this) = none
  | _ => False

instance {Allowed : ForkChoice → BeaconBlock → BeaconState → Prop}
    [∀ this block state, Decidable (Allowed this block state)] (this : ForkChoice) :
    ∀ call : Call, Decidable (IsChainCall Allowed this call)
  | .onBlock block state preCachedData => inferInstanceAs (Decidable
      (errorOf ((onBlock block state preCachedData).run this) = none ∧
        state.finalizedCheckpoint.epoch ≤ state.currentJustifiedCheckpoint.epoch ∧
        Allowed this block state))
  | .updateTime currentSlot =>
    inferInstanceAs (Decidable (errorOf ((updateTime currentSlot).run this) = none))
  | .onAttestation _ | .updateHead | .prune _ | .setPruneThreshold _ =>
    inferInstanceAs (Decidable False)

theorem chainStep_of_isChainCall {Allowed : ForkChoice → BeaconBlock → BeaconState → Prop}
    {call : Call} (h : IsChainCall Allowed this call) :
    ChainStep Allowed this (stateOf (call.apply.run this)) := by
  cases call with
  | onBlock block state preCachedData =>
    obtain ⟨hok, hepochs, hallowed⟩ := h
    exact .onBlock hepochs hallowed (exists_ok_of_errorOf hok).choose_spec
  | updateTime currentSlot => exact .updateTime (exists_ok_of_errorOf h).choose_spec
  | onAttestation attestation => exact h.elim
  | updateHead => exact h.elim
  | prune finalizedRoot => exact h.elim
  | setPruneThreshold threshold => exact h.elim

theorem chainRun_of_forallCalls {Allowed : ForkChoice → BeaconBlock → BeaconState → Prop}
    {calls : List Call} (h : ForallCalls (IsChainCall Allowed) this calls) :
    Relation.ReflTransGen (ChainStep Allowed) this (this.afterCalls calls) :=
  h.run fun _ _ => chainStep_of_isChainCall

end Main

/-! ## A justified block that is not below the finalized one -/

attribute [local instance] minimal

/-- The anchor at genesis. -/
def genesisAnchor : Anchor where
  blockHeader := ⟨0, 0, 0, 0, 0⟩
  checkpoint := ⟨0, 0xaa⟩
  latestExecutionPayloadHeader := none
  justifiedBalances := [1]

theorem genesisChoice_anchored (proposerBoostEnabled : Bool) :
    Anchored (genesisChoice proposerBoostEnabled) := by
  have hok : ∀ boost : Bool,
      (initializeForkChoice chainConfigMinimal 0 genesisAnchor boost).isOk = true := by
    decide +kernel
  exact ⟨chainConfigMinimal, 0, genesisAnchor, proposerBoostEnabled,
    eq_ok_okOr _ (hok proposerBoostEnabled)⟩

/-- The blocks `1` and `2` are siblings. -/
def siblingCalls : List Call :=
  [.updateTime 33,
    .onBlock (plainBlock 8 1 0xaa) (plainState 8 ⟨0, 0xaa⟩ ⟨0, 0xaa⟩) (some (lateData none)),
    .onBlock (plainBlock 9 2 0xaa) (plainState 9 ⟨0, 0xaa⟩ ⟨0, 0xaa⟩) (some (lateData none))]

/-- The blocks `1` and `2`, and a child of `1` whose state has the given justified root. -/
def forkedCalls (justifiedRoot : Root) : List Call :=
  siblingCalls ++
    [.onBlock (plainBlock 25 3 1) (plainState 25 ⟨2, justifiedRoot⟩ ⟨1, 1⟩)
      (some (lateData (some [1])))]

def forkedChoice (justifiedRoot : Root) : ForkChoice :=
  (genesisChoice false).afterCalls (forkedCalls justifiedRoot)

theorem forkedChoice_run :
    Relation.ReflTransGen (ChainStep AnyBlock) (genesisChoice false) (forkedChoice 2) := by
  have hcalls : ForallCalls (IsChainCall AnyBlock) (genesisChoice false) (forkedCalls 2) := by decide +kernel
  exact chainRun_of_forallCalls hcalls

theorem forkedChoice_tree (justifiedRoot : Root) :
    (forkedChoice justifiedRoot).protoArray.Tree := by
  have hstart : (genesisChoice false).Reachable := ⟨_, genesisChoice_created false, .refl⟩
  exact (hstart.afterCalls (forkedCalls justifiedRoot)).protoArray_reachable.wf.toTree

/-- The state of the block `3` has justified the block `2`, which is not below `1`. -/
theorem forkedChoice_not_descends :
    Anchored (genesisChoice false) ∧
      Relation.ReflTransGen (ChainStep AnyBlock) (genesisChoice false) (forkedChoice 2) ∧
      (forkedChoice 2).protoArray.hasBlock
        (forkedChoice 2).fcStore.justifiedCheckpoint.rootHex = true ∧
      ¬ (forkedChoice 2).protoArray.IsDescendant
        (forkedChoice 2).fcStore.finalizedCheckpoint.rootHex
        (forkedChoice 2).fcStore.justifiedCheckpoint.rootHex := by
  have hfinalized : (forkedChoice 2).protoArray.indices[
      (forkedChoice 2).fcStore.finalizedCheckpoint.rootHex]? = some 1 := by decide +kernel
  have hjustified : (forkedChoice 2).protoArray.indices[
      (forkedChoice 2).fcStore.justifiedCheckpoint.rootHex]? = some 2 := by decide +kernel
  have hparent : (forkedChoice 2).protoArray.parentOf 2 = some 0 := by decide +kernel
  exact ⟨genesisChoice_anchored false, forkedChoice_run, by decide +kernel,
    ProtoArray.not_isDescendant_of_parent (forkedChoice_tree 2) hfinalized hjustified hparent
      (by decide) (by decide)⟩

/-- With the block `1` justified. -/
theorem forkedChoice_descends :
    (forkedChoice 1).protoArray.IsDescendant (forkedChoice 1).fcStore.finalizedCheckpoint.rootHex
      (forkedChoice 1).fcStore.justifiedCheckpoint.rootHex := by
  have hcalls : ForallCalls (IsChainCall OnChain) (genesisChoice false) (forkedCalls 1) := by decide +kernel
  exact (checkpoints_of_run (genesisChoice_anchored false)).2 (forkedChoice 1)
    (chainRun_of_forallCalls hcalls) (by decide +kernel)

end Lodestar.ForkChoice

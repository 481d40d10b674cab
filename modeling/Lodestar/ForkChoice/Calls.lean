import Lodestar.Base.Except
import Lodestar.ForkChoice.ForkChoice

/-!
# What each call does

One lemma for each method of `ForkChoice`: the state it leaves, by cases. The
runs and invariants of a fork choice are derived from these.
-/

namespace Lodestar.ForkChoice

open Lodestar.Base Lodestar.StateTransition

variable [Preset] {this this' : ForkChoice}

/-! ## Reads -/

omit [Preset] in
theorem getAncestor_of_none {blockRoot : RootHex} {slot : Nat}
    (hi : this.protoArray.indices[blockRoot]? = none) :
    this.getAncestor blockRoot slot = .error (.MISSING_PROTO_ARRAY_BLOCK blockRoot) := by
  rw [getAncestor, ProtoArray.getBlock, ProtoArray.getNode, hi]
  rfl

omit [Preset] in
theorem getAncestor_of_le {blockRoot : RootHex} {slot i : Nat}
    {node : IProtoNode} (hi : this.protoArray.indices[blockRoot]? = some i)
    (hnode : this.protoArray.nodes[i]? = some node) (hslot : node.slot ≤ slot) :
    this.getAncestor blockRoot slot = .ok blockRoot := by
  have hget : this.protoArray.getNode blockRoot = some node := by
    rw [ProtoArray.getNode, hi]
    exact hnode
  rw [getAncestor, ProtoArray.getBlock, hget]
  exact if_neg (Nat.not_lt.mpr hslot)

omit [Preset] in
theorem getAncestor_of_lt (h : this.protoArray.Tree) {blockRoot : RootHex} {slot i : Nat}
    {node : IProtoNode} (hi : this.protoArray.indices[blockRoot]? = some i)
    (hnode : this.protoArray.nodes[i]? = some node) (hslot : slot < node.slot) :
    this.getAncestor blockRoot slot
      = ((((this.protoArray.forest h).ancestors i).filterMap
          (this.protoArray.nodes[·]?)).find? (·.slot ≤ slot)).elim
            (.error (.UNKNOWN_ANCESTOR blockRoot slot)) (fun ancestor => .ok ancestor.blockRoot) := by
  have hget : this.protoArray.getNode blockRoot = some node := by
    rw [ProtoArray.getNode, hi]
    exact hnode
  rw [getAncestor, ProtoArray.getBlock, hget]
  simp only [Option.map_some, gt_iff_lt, if_pos hslot, ProtoArray.iterateAncestorNodes_eq h hi]
  generalize ((this.protoArray.forest h).ancestors i).filterMap (this.protoArray.nodes[·]?) = nodes
  simp only [Except.mapError, bind, Except.bind]
  cases nodes.find? (·.slot ≤ slot) <;> rfl

omit [Preset] in
/-- `getAncestor` finds a root if the block or an ancestor of it is at or before the slot. -/
theorem getAncestor_isOk_iff (h : this.protoArray.Tree) {blockRoot : RootHex} {slot : Nat} :
    (∃ root, this.getAncestor blockRoot slot = .ok root) ↔
      this.protoArray.Reaches blockRoot slot := by
  cases hi : this.protoArray.indices[blockRoot]? with
  | none =>
    rw [getAncestor_of_none hi]
    constructor
    · rintro ⟨root, hroot⟩
      cases hroot
    · rintro ⟨i, a, node, hi', -⟩
      rw [hi] at hi'
      cases hi'
  | some i =>
    obtain ⟨node, hnode, -⟩ := h.indices_iff.mp hi
    by_cases hslot : slot < node.slot
    · rw [getAncestor_of_lt h hi hnode hslot, ProtoArray.reaches_iff_ancestors h hi hnode hslot]
      generalize ((this.protoArray.forest h).ancestors i).filterMap _ = nodes
      cases hfind : nodes.find? (·.slot ≤ slot) with
      | some ancestor =>
        have hle := List.find?_some hfind
        constructor
        · intro _
          exact ⟨ancestor, List.mem_of_find?_eq_some hfind, of_decide_eq_true hle⟩
        · intro _
          exact ⟨_, rfl⟩
      | none =>
        have hnone := List.find?_eq_none.mp hfind
        constructor
        · rintro ⟨root, hroot⟩
          cases hroot
        · rintro ⟨ancestor, hmem, hle⟩
          exact absurd (decide_eq_true hle) (hnone ancestor hmem)
    · rw [getAncestor_of_le hi hnode (Nat.not_lt.mp hslot)]
      constructor
      · intro _
        exact ⟨i, i, node, hi, .refl, hnode, Nat.zero_le i, Nat.not_lt.mp hslot⟩
      · intro _
        exact ⟨_, rfl⟩

omit [Preset] in
theorem exists_of_getAncestor (h : this.protoArray.Tree) {blockRoot root : RootHex} {slot : Nat}
    (hcall : this.getAncestor blockRoot slot = .ok root) :
    ∃ (i a : Nat) (node : IProtoNode), this.protoArray.indices[blockRoot]? = some i ∧
      (this.protoArray.forest h).Descends i a ∧ this.protoArray.nodes[a]? = some node ∧
      node.blockRoot = root ∧ node.slot ≤ slot ∧
      ∀ (c : Nat) (between : IProtoNode), (this.protoArray.forest h).Descends i c → a < c →
        this.protoArray.nodes[c]? = some between → slot < between.slot := by
  cases hi : this.protoArray.indices[blockRoot]? with
  | none =>
    rw [getAncestor_of_none hi] at hcall
    cases hcall
  | some i =>
    obtain ⟨node, hnode, hroot⟩ := h.indices_iff.mp hi
    by_cases hslot : slot < node.slot
    · rw [getAncestor_of_lt h hi hnode hslot] at hcall
      cases hfind : (((this.protoArray.forest h).ancestors i).filterMap
          (this.protoArray.nodes[·]?)).find? (·.slot ≤ slot) with
      | none =>
        rw [hfind] at hcall
        cases hcall
      | some ancestor =>
        rw [hfind] at hcall
        obtain ⟨a, hd, ha, hle, hnear⟩ := Forest.find?_ancestors hfind
        refine ⟨i, a, ancestor, rfl, hd, ha, Except.ok.inj hcall, of_decide_eq_true hle, ?_⟩
        intro c between hdc hac hc
        by_cases hne : i = c
        · subst hne
          rw [hnode] at hc
          obtain rfl := Option.some.inj hc
          exact hslot
        · exact Nat.not_le.mp (of_decide_eq_false (hnear c between hdc hne hac hc))
    · rw [getAncestor_of_le hi hnode (Nat.not_lt.mp hslot)] at hcall
      refine ⟨i, i, node, rfl, .refl i, hnode, hroot.trans (Except.ok.inj hcall),
        Nat.not_lt.mp hslot, ?_⟩
      intro c between hd hlt _
      exact absurd hd.le (Nat.not_le.mpr hlt)

omit [Preset] in
theorem isDescendant_of_getAncestor (h : this.protoArray.Tree) {blockRoot root root' : RootHex}
    {slot slot' : Nat} (hcall : this.getAncestor blockRoot slot = .ok root)
    (hcall' : this.getAncestor blockRoot slot' = .ok root') (hle : slot' ≤ slot) :
    this.protoArray.IsDescendant root' root := by
  obtain ⟨i, a, node, hi, hd, hnode, hroot, hslot, hnear⟩ := exists_of_getAncestor h hcall
  obtain ⟨i', a', node', hi', hd', hnode', hroot', hslot', -⟩ := exists_of_getAncestor h hcall'
  obtain rfl : i = i' := Option.some.inj (hi.symm.trans hi')
  refine ⟨a', a, h.indices_iff.mpr ⟨node', hnode', hroot'⟩,
    h.indices_iff.mpr ⟨node, hnode, hroot⟩, ?_⟩
  rcases hd.total hd' with hdesc | hdesc
  · exact hdesc
  · rcases Nat.eq_or_lt_of_le hdesc.le with rfl | hlt
    · exact .refl
    · have hbetween := hnear a' node' hd' hlt hnode'
      omega

omit [Preset] in
theorem isDescendant_of_getAncestor_self (h : this.protoArray.Tree) {blockRoot root : RootHex}
    {slot : Nat} (hcall : this.getAncestor blockRoot slot = .ok root) :
    this.protoArray.IsDescendant root blockRoot := by
  obtain ⟨i, a, node, hi, hd, hnode, hroot, -, -⟩ := exists_of_getAncestor h hcall
  exact ⟨a, i, h.indices_iff.mpr ⟨node, hnode, hroot⟩, hi, hd⟩

/-! ## The parts of `onBlock` -/

/-- The state has justified a later epoch than the store. -/
abbrev RaisesJustified (this : ForkChoice) (state : BeaconState) : Prop :=
  this.fcStore.justifiedCheckpoint.epoch < state.currentJustifiedCheckpoint.epoch

/-- The state has also justified a later epoch than the best the store has seen. -/
abbrev RaisesBest (this : ForkChoice) (state : BeaconState) : Prop :=
  this.RaisesJustified state ∧
    this.fcStore.bestJustifiedCheckpoint.epoch < state.currentJustifiedCheckpoint.epoch

/-- The state has finalized a later epoch than the store. -/
abbrev RaisesFinalized (this : ForkChoice) (state : BeaconState) : Prop :=
  this.fcStore.finalizedCheckpoint.epoch < state.finalizedCheckpoint.epoch

/-- Whether the state's justified checkpoint is one to take over at once. -/
def takesJustified (this : ForkChoice) (state : BeaconState) : Except ForkChoiceError Bool :=
  if this.RaisesJustified state then this.shouldUpdateJustifiedCheckpoint state else .ok false

/-- The fork choice with the state's justified checkpoint as the best one, if it is. -/
def withBest (this : ForkChoice) (state : BeaconState) (balances : EffectiveBalanceIncrements) :
    ForkChoice :=
  if this.RaisesBest state then
    this.updateBestJustified (toCheckpointWithHex state.currentJustifiedCheckpoint) balances
  else
    this

/-- The fork choice with the state's finalized checkpoint, if it is later. -/
def withFinalized (this : ForkChoice) (state : BeaconState) : ForkChoice :=
  if this.RaisesFinalized state then
    this.updateFinalized (toCheckpointWithHex state.finalizedCheckpoint)
  else
    this

theorem considerJustified_run (state : BeaconState) (preCachedData : Option OnBlockPrecachedData)
    {balances : EffectiveBalanceIncrements}
    (hbalances : this.RaisesJustified state →
      preCachedData.bind (·.justifiedBalances) = some balances) :
    (considerJustified state preCachedData).run this
      = atState (this.withBest state balances) (this.takesJustified state) := by
  rw [considerJustified, EStateM.run_bind, EStateM.run_get, takesJustified]
  by_cases hj : this.RaisesJustified state
  · simp only [hbalances hj, run_ite, toCheckpointWithHex_epoch, gt_iff_lt]
    rw [if_pos hj, if_pos hj]
    by_cases hb : this.fcStore.bestJustifiedCheckpoint.epoch
        < state.currentJustifiedCheckpoint.epoch
    · rw [if_pos hb, withBest, if_pos (And.intro hj hb), EStateM.run_bind, EStateM.run_modify]
      simp only [EStateM.run_bind, EStateM.run_get, run_ofExcept]
      rfl
    · rw [if_neg hb, withBest, if_neg fun h => hb h.2]
      simp only [EStateM.run_bind, EStateM.run_get, run_ofExcept]
  · simp only [run_ite, toCheckpointWithHex_epoch, gt_iff_lt]
    rw [if_neg hj, if_neg hj, withBest, if_neg fun h => hj h.1]
    rfl

/-- The fork choice with all of the state's checkpoints it is to have. -/
def withCheckpoints (this : ForkChoice) (state : BeaconState)
    (balances : EffectiveBalanceIncrements) (takes : Bool) : ForkChoice :=
  let that := (this.withBest state balances).withFinalized state
  if takes ∨ this.RaisesFinalized state then
    that.updateJustified (toCheckpointWithHex state.currentJustifiedCheckpoint) balances
  else
    that

@[simp] theorem finalizedCheckpoint_withBest (state : BeaconState)
    (balances : EffectiveBalanceIncrements) :
    (this.withBest state balances).fcStore.finalizedCheckpoint
      = this.fcStore.finalizedCheckpoint := by
  rw [withBest]
  split <;> rfl

theorem raisesFinalized_withBest (this : ForkChoice) (state : BeaconState) (balances : EffectiveBalanceIncrements) :
    (this.withBest state balances).RaisesFinalized state ↔ this.RaisesFinalized state := by
  rw [RaisesFinalized, finalizedCheckpoint_withBest]

theorem raisesJustified_of_takes {state : BeaconState}
    (h : this.takesJustified state = .ok true) : this.RaisesJustified state := by
  rw [takesJustified] at h
  by_contra hj
  rw [if_neg hj] at h
  cases h

/-- With balances at hand the checkpoints are updated, unless `shouldUpdateJustifiedCheckpoint`
throws. -/
theorem updateCheckpoints_run (state : BeaconState) (preCachedData : Option OnBlockPrecachedData)
    {balances : EffectiveBalanceIncrements}
    (hbalances : this.RaisesJustified state ∨ this.RaisesFinalized state →
      preCachedData.bind (·.justifiedBalances) = some balances) :
    (updateCheckpoints state preCachedData).run this =
      match this.takesJustified state with
      | .ok takes => .ok ⟨⟩ (this.withCheckpoints state balances takes)
      | .error e => .error e (this.withBest state balances) := by
  rw [updateCheckpoints, EStateM.run_bind,
    considerJustified_run state preCachedData fun h => hbalances (.inl h)]
  cases htakes : this.takesJustified state with
  | error e => rfl
  | ok takes =>
    simp only [atState_ok, EStateM.run_bind, EStateM.run_get, finalizedCheckpoint_withBest,
      run_ite, gt_iff_lt]
    have hsame := this.raisesFinalized_withBest state balances
    by_cases hf : this.RaisesFinalized state
    · rw [if_pos hf, withCheckpoints, if_pos (.inr hf), withFinalized, if_pos (hsame.mpr hf)]
      simp only [EStateM.run_modify, hbalances (.inr hf), if_true]
    · rw [if_neg hf, withCheckpoints, withFinalized, if_neg fun h => hf (hsame.mp h)]
      cases takes with
      | true =>
        rw [if_pos rfl, if_pos (.inl rfl), hbalances (.inl (raisesJustified_of_takes htakes))]
        rfl
      | false =>
        rw [if_neg Bool.false_ne_true, if_neg fun h => h.elim Bool.false_ne_true hf]
        rfl

theorem updateCheckpoints_of_raisesJustified {state : BeaconState}
    {preCachedData : Option OnBlockPrecachedData} (hj : this.RaisesJustified state)
    (hnone : preCachedData.bind (·.justifiedBalances) = none) :
    (updateCheckpoints state preCachedData).run this = .error noBalancesError this := by
  rw [updateCheckpoints, EStateM.run_bind, considerJustified, EStateM.run_bind, EStateM.run_get]
  simp only [run_ite, toCheckpointWithHex_epoch, gt_iff_lt, hnone]
  rw [if_pos hj]
  rfl

theorem updateCheckpoints_of_raisesFinalized {state : BeaconState}
    {preCachedData : Option OnBlockPrecachedData} (hj : ¬ this.RaisesJustified state)
    (hf : this.RaisesFinalized state) (hnone : preCachedData.bind (·.justifiedBalances) = none) :
    (updateCheckpoints state preCachedData).run this
      = .error noBalancesError
        (this.updateFinalized (toCheckpointWithHex state.finalizedCheckpoint)) := by
  have htakes : this.takesJustified state = .ok false := if_neg hj
  have hbest : this.withBest state [] = this := if_neg fun h => hj h.1
  rw [updateCheckpoints, EStateM.run_bind,
    considerJustified_run state preCachedData (fun h => absurd h hj), htakes, hbest]
  simp only [atState_ok, EStateM.run_bind, EStateM.run_get, run_ite, gt_iff_lt]
  rw [if_pos hf]
  simp only [EStateM.run_modify, hnone, if_true]
  rfl

theorem updateCheckpoints_cases (this : ForkChoice) (state : BeaconState)
    (preCachedData : Option OnBlockPrecachedData) :
    (this.RaisesJustified state ∧ preCachedData.bind (·.justifiedBalances) = none ∧
      (updateCheckpoints state preCachedData).run this = .error noBalancesError this) ∨
    (¬ this.RaisesJustified state ∧ this.RaisesFinalized state ∧
      preCachedData.bind (·.justifiedBalances) = none ∧
      (updateCheckpoints state preCachedData).run this = .error noBalancesError
        (this.updateFinalized (toCheckpointWithHex state.finalizedCheckpoint))) ∨
    ∃ balances : EffectiveBalanceIncrements,
      (this.RaisesJustified state ∨ this.RaisesFinalized state →
        preCachedData.bind (·.justifiedBalances) = some balances) ∧
      (updateCheckpoints state preCachedData).run this =
        match this.takesJustified state with
        | .ok takes => .ok ⟨⟩ (this.withCheckpoints state balances takes)
        | .error e => .error e (this.withBest state balances) := by
  cases hb : preCachedData.bind (·.justifiedBalances) with
  | some balances =>
    exact .inr (.inr ⟨balances, fun _ => rfl, updateCheckpoints_run state preCachedData fun _ => hb⟩)
  | none =>
    by_cases hj : this.RaisesJustified state
    · exact .inl ⟨hj, rfl, updateCheckpoints_of_raisesJustified hj hb⟩
    · by_cases hf : this.RaisesFinalized state
      · exact .inr (.inl ⟨hj, hf, rfl, updateCheckpoints_of_raisesFinalized hj hf hb⟩)
      · have hno : ¬ (this.RaisesJustified state ∨ this.RaisesFinalized state) :=
          fun h => h.elim hj hf
        exact .inr (.inr ⟨[], fun h => absurd h hno,
          updateCheckpoints_run state preCachedData fun h => absurd h hno⟩)

/-- The block is boosted. -/
def isTimely (this : ForkChoice) (block : BeaconBlock)
    (preCachedData : Option OnBlockPrecachedData) : Bool :=
  this.proposerBoostEnabled && block.slot = this.fcStore.currentSlot &&
    preCachedData.any fun data => getCurrentInterval this.config data.blockDelaySec < 1

def withBoost (this : ForkChoice) (block : BeaconBlock)
    (preCachedData : Option OnBlockPrecachedData) : ForkChoice :=
  if this.isTimely block preCachedData then
    { this with proposerBoostRoot := some block.hashTreeRoot, synced := false }
  else
    this

omit [Preset] in
@[simp] theorem fcStore_withBoost (block : BeaconBlock)
    (preCachedData : Option OnBlockPrecachedData) :
    (this.withBoost block preCachedData).fcStore = this.fcStore := by
  rw [withBoost]
  split <;> rfl

omit [Preset] in
theorem updateProposerBoost_run (this : ForkChoice) (block : BeaconBlock)
    (preCachedData : Option OnBlockPrecachedData) :
    (updateProposerBoost block preCachedData).run this
        = .ok ⟨⟩ (this.withBoost block preCachedData) ∨
      preCachedData = none ∧ ∃ e, (updateProposerBoost block preCachedData).run this
        = .error e this := by
  rw [updateProposerBoost, EStateM.run_bind, EStateM.run_get]
  simp only [run_ite]
  cases hslot : this.proposerBoostEnabled && decide (block.slot = this.fcStore.currentSlot) with
  | false =>
    left
    rw [if_neg Bool.false_ne_true, withBoost, isTimely, hslot]
    rfl
  | true =>
    rw [if_pos rfl]
    cases preCachedData with
    | none => exact .inr ⟨rfl, _, rfl⟩
    | some data =>
      left
      rw [withBoost, isTimely, hslot]
      simp only [Option.map_some, Option.any_some, Bool.true_and, decide_eq_true_eq, run_ite]
      split <;> rfl

theorem addBlock_run (block : BeaconBlock) (state : BeaconState)
    (preCachedData : Option OnBlockPrecachedData) :
    (addBlock block state preCachedData).run this =
      match blockExecution block state preCachedData with
      | .error e => .error e this
      | .ok execution =>
        match this.protoArray.onBlock (protoBlock block state execution) with
        | .error e => .error (.protoArray e) this
        | .ok protoArray => .ok ⟨⟩ { this with protoArray } := by
  rw [addBlock, EStateM.run_bind, run_ofExcept]
  cases blockExecution block state preCachedData with
  | error e => rfl
  | ok execution =>
    simp only [atState_ok, EStateM.run_bind, EStateM.run_get, run_ofExcept]
    cases this.protoArray.onBlock (protoBlock block state execution) <;> rfl

theorem onBlock_run (block : BeaconBlock) (state : BeaconState)
    (preCachedData : Option OnBlockPrecachedData) :
    (onBlock block state preCachedData).run this =
      match this.entryChecks block state preCachedData with
      | .error e => .error e this
      | .ok _ =>
        match (updateCheckpoints state preCachedData).run this with
        | .ok _ that =>
          match (updateProposerBoost block preCachedData).run that with
          | .ok _ that => (addBlock block state preCachedData).run that
          | .error e that => .error e that
        | .error e that => .error e that := by
  rw [onBlock, EStateM.run_bind, EStateM.run_get]
  simp only [EStateM.run_bind, run_ofExcept]
  cases this.entryChecks block state preCachedData with
  | error e => rfl
  | ok _ =>
    rw [atState_ok]
    dsimp only
    cases (updateCheckpoints state preCachedData).run this with
    | error e that => rfl
    | ok _ that =>
      dsimp only
      cases (updateProposerBoost block preCachedData).run that <;> rfl

theorem onBlock_ok {block : BeaconBlock} {state : BeaconState}
    {preCachedData : Option OnBlockPrecachedData} {u : Unit}
    (h : (onBlock block state preCachedData).run this = .ok u this') :
    this.entryChecks block state preCachedData = .ok () ∧
      ∃ (balances : EffectiveBalanceIncrements) (takes : Bool) (execution : BlockExecution)
        (protoArray : ProtoArray),
        this.takesJustified state = .ok takes ∧
        this.protoArray.onBlock (protoBlock block state execution) = .ok protoArray ∧
        this' = { (this.withCheckpoints state balances takes).withBoost block preCachedData with
          protoArray } := by
  have harray : ∀ balances takes, ((this.withCheckpoints state balances takes).withBoost block
      preCachedData).protoArray = this.protoArray := by
    intro balances takes
    rw [withBoost, withCheckpoints, withFinalized, withBest]
    split_ifs <;> rfl
  rw [onBlock_run] at h
  cases hchecks : this.entryChecks block state preCachedData with
  | error e =>
    rw [hchecks] at h
    cases h
  | ok v =>
    rw [hchecks] at h
    dsimp only at h
    refine ⟨rfl, ?_⟩
    rcases updateCheckpoints_cases this state preCachedData with
      ⟨-, -, hrun⟩ | ⟨-, -, -, hrun⟩ | ⟨balances, -, hrun⟩ <;> rw [hrun] at h
    · cases h
    · cases h
    · cases htakes : this.takesJustified state with
      | error e =>
        rw [htakes] at h
        cases h
      | ok takes =>
        rw [htakes] at h
        dsimp only at h
        rcases updateProposerBoost_run (this.withCheckpoints state balances takes) block
          preCachedData with hboost | ⟨-, e, hboost⟩ <;> rw [hboost] at h
        · dsimp only at h
          rw [addBlock_run, harray] at h
          cases hexec : blockExecution block state preCachedData with
          | error e =>
            rw [hexec] at h
            cases h
          | ok execution =>
            rw [hexec] at h
            dsimp only at h
            cases hcall : this.protoArray.onBlock (protoBlock block state execution) with
            | error e =>
              rw [hcall] at h
              cases h
            | ok protoArray =>
              rw [hcall] at h
              cases h
              exact ⟨balances, takes, execution, protoArray, rfl, hcall, rfl⟩
        · cases h

/-! ## Scores -/

/-- The boost that the scores are to have. -/
def proposerBoost (this : ForkChoice) : Option ProposerBoost :=
  match this.proposerBoostEnabled, this.proposerBoostRoot with
  | true, some root => some ⟨root, this.proposerBoostScore⟩
  | _, _ => none

/-- What `applyScoreChanges` is called with. -/
def scoreChanges (this : ForkChoice) (deltas : List Int) : ProtoArray.ScoreChanges where
  deltas
  proposerBoost := this.proposerBoost
  justifiedEpoch := this.fcStore.justifiedCheckpoint.epoch
  justifiedRoot := this.fcStore.justifiedCheckpoint.rootHex
  finalizedEpoch := this.fcStore.finalizedCheckpoint.epoch
  finalizedRoot := this.fcStore.finalizedCheckpoint.rootHex

/-- The fork choice with the votes moved on, and the score of the boost known if it is needed. -/
def withVotes (this : ForkChoice) (votes : List (Option IVoteTracker)) : ForkChoice :=
  { this with
    votes
    justifiedProposerBoostScore :=
      match this.proposerBoost with
      | some _ => some this.proposerBoostScore
      | none => this.justifiedProposerBoostScore }

theorem updateScores_run :
    updateScores.run this =
      match computeDeltas this.protoArray.indices this.votes this.justifiedBalances
        this.justifiedBalances with
      | .error e => .error (.protoArray e) this
      | .ok (deltas, votes) =>
        match this.protoArray.applyScoreChanges (this.scoreChanges deltas) with
        | .error e => .error (.protoArray e) (this.withVotes votes)
        | .ok protoArray => .ok ⟨⟩ { this.withVotes votes with protoArray, synced := true } := by
  rw [updateScores, EStateM.run_bind, EStateM.run_get]
  simp only [EStateM.run_bind, run_ofExcept]
  cases computeDeltas this.protoArray.indices this.votes this.justifiedBalances
      this.justifiedBalances with
  | error e => rfl
  | ok result =>
    obtain ⟨deltas, votes⟩ := result
    simp only [Except.mapError, atState_ok, EStateM.run_modify, scoreChanges, withVotes,
      proposerBoost]
    cases this.proposerBoostEnabled <;> cases this.proposerBoostRoot <;>
      simp only [EStateM.run_pure, EStateM.run_bind, EStateM.run_modify, run_ofExcept]
    all_goals cases this.protoArray.applyScoreChanges _ <;> rfl

omit [Preset] in
theorem cacheHead_run (this : ForkChoice) :
    (∃ e, cacheHead.run this = .error e this) ∨
      ∃ node, cacheHead.run this = .ok node { this with head := some node } := by
  rw [cacheHead, EStateM.run_bind, EStateM.run_get]
  simp only [EStateM.run_bind, run_ofExcept]
  cases this.protoArray.findHead this.fcStore.justifiedCheckpoint.rootHex with
  | error e => exact .inl ⟨_, rfl⟩
  | ok headRoot =>
    simp only [Except.mapError, atState_ok]
    cases this.protoArray.getNode headRoot with
    | none => exact .inl ⟨_, rfl⟩
    | some node => exact .inr ⟨node, rfl⟩

theorem updateHead_run (this : ForkChoice) :
    updateHead.run this =
      if this.synced then cacheHead.run this
      else match updateScores.run this with
        | .ok _ that => cacheHead.run that
        | .error e that => .error e that := by
  rw [updateHead, EStateM.run_bind, EStateM.run_get]
  simp only [run_ite]
  cases this.synced with
  | true => rfl
  | false =>
    simp only [Bool.not_false, if_true, EStateM.run_bind, Bool.false_eq_true, if_false]
    cases updateScores.run this <;> rfl

theorem updateHead_ok {node : IProtoNode} (h : updateHead.run this = .ok node this') :
    this'.fcStore = this.fcStore ∧ this'.queuedAttestations = this.queuedAttestations ∧
      (this'.protoArray = this.protoArray ∨
        ∃ changes, this.protoArray.applyScoreChanges changes = .ok this'.protoArray) := by
  have hcache : ∀ that : ForkChoice, cacheHead.run that = .ok node this' →
      this' = { that with head := some node } := by
    intro that hrun
    rcases cacheHead_run that with ⟨e, heq⟩ | ⟨node', heq⟩ <;> cases hrun.symm.trans heq
    rfl
  rw [updateHead_run] at h
  split at h
  · cases hcache this h
    exact ⟨rfl, rfl, .inl rfl⟩
  · rw [updateScores_run] at h
    cases hdeltas : computeDeltas this.protoArray.indices this.votes this.justifiedBalances
        this.justifiedBalances with
    | error e =>
      rw [hdeltas] at h
      cases h
    | ok result =>
      obtain ⟨deltas, votes⟩ := result
      rw [hdeltas] at h
      dsimp only at h
      cases hcall : this.protoArray.applyScoreChanges (this.scoreChanges deltas) with
      | error e =>
        rw [hcall] at h
        cases h
      | ok protoArray =>
        rw [hcall] at h
        cases hcache { this.withVotes votes with protoArray, synced := true } h
        exact ⟨rfl, rfl, .inr ⟨_, hcall⟩⟩

/-! ## Attestations -/

/-- The fork choice with the messages of an attestation, or with the attestation in the queue. -/
def withAttestation (this : ForkChoice) (attestation : IndexedAttestation) : ForkChoice :=
  if attestation.data.slot < this.fcStore.currentSlot then
    this.addLatestMessages attestation.attestingIndices attestation.data.target.epoch
      attestation.data.beaconBlockRoot
  else
    { this with
      queuedAttestations := this.queuedAttestations ++
        [{ slot := attestation.data.slot
           attestingIndices := attestation.attestingIndices
           blockRoot := attestation.data.beaconBlockRoot
           targetEpoch := attestation.data.target.epoch }] }

theorem validateOnAttestation_run (this : ForkChoice) (attestation : IndexedAttestation)
    (slot : Nat) (blockRoot : RootHex) (targetEpoch : Nat) :
    (∃ e, (validateOnAttestation attestation slot blockRoot targetEpoch).run this
        = .error e this) ∨
      ∃ seen, (validateOnAttestation attestation slot blockRoot targetEpoch).run this
        = .ok ⟨⟩ { this with validatedAttestationDatas := seen } := by
  rw [validateOnAttestation]
  simp only [run_ite]
  split
  · exact .inl ⟨_, rfl⟩
  · simp only [EStateM.run_bind, EStateM.run_get, run_ite]
    split
    · exact .inr ⟨_, rfl⟩
    · simp only [run_ofExcept]
      cases this.validateAttestationData attestation.data slot blockRoot targetEpoch with
      | error e => exact .inl ⟨e, rfl⟩
      | ok _ =>
        cases attestation.dataTreeRoot with
        | none => exact .inr ⟨_, rfl⟩
        | some root => exact .inr ⟨_, rfl⟩

theorem onAttestation_run (this : ForkChoice) (attestation : IndexedAttestation) :
    (∃ e, (onAttestation attestation).run this = .error e this) ∨
      (attestation.data.beaconBlockRoot = HEX_ZERO_HASH ∧
        (onAttestation attestation).run this = .ok ⟨⟩ this) ∨
      attestation.data.beaconBlockRoot ≠ HEX_ZERO_HASH ∧
        ∃ seen, (onAttestation attestation).run this
          = .ok ⟨⟩ (({ this with validatedAttestationDatas := seen } : ForkChoice).withAttestation
              attestation) := by
  rw [onAttestation]
  simp only [run_ite]
  split
  · rename_i hroot
    exact .inr (.inl ⟨hroot, rfl⟩)
  · rename_i hroot
    simp only [EStateM.run_bind]
    rcases validateOnAttestation_run this attestation attestation.data.slot
      attestation.data.beaconBlockRoot attestation.data.target.epoch with ⟨e, h⟩ | ⟨seen, h⟩
    · rw [h]
      exact .inl ⟨e, rfl⟩
    · rw [h]
      refine .inr (.inr ⟨hroot, seen, ?_⟩)
      simp only [EStateM.run_get, run_ite, withAttestation]
      split <;> rfl

omit [Preset] in
theorem exists_addLatestMessages (this : ForkChoice) (attestingIndices : List Nat)
    (targetEpoch : Nat) (blockRoot : RootHex) :
    ∃ votes synced, this.addLatestMessages attestingIndices targetEpoch blockRoot
      = { this with votes, synced } := by
  rw [addLatestMessages]
  induction attestingIndices generalizing this with
  | nil => exact ⟨this.votes, this.synced, rfl⟩
  | cons index indices ih =>
    obtain ⟨votes, synced, h⟩ := ih (this.addLatestMessage index targetEpoch blockRoot)
    exact ⟨votes, synced, h⟩

/-- The fork choice has the given queue, votes and flag and is otherwise the same. -/
abbrev withQueue (this : ForkChoice) (queuedAttestations : List IQueuedAttestation)
    (votes : List (Option IVoteTracker)) (synced : Bool) : ForkChoice :=
  { this with queuedAttestations, votes, synced }

omit [Preset] in
theorem exists_withAttestation (this : ForkChoice) (attestation : IndexedAttestation) :
    ∃ queue votes synced, this.withAttestation attestation = this.withQueue queue votes synced := by
  rw [withAttestation]
  split
  · obtain ⟨votes, synced, h⟩ := this.exists_addLatestMessages attestation.attestingIndices
      attestation.data.target.epoch attestation.data.beaconBlockRoot
    exact ⟨this.queuedAttestations, votes, synced, h⟩
  · exact ⟨_, this.votes, this.synced, rfl⟩

/-! ## The clock -/

omit [Preset] in
theorem exists_processAttestationQueue (this : ForkChoice) :
    ∃ votes synced, this.processAttestationQueue = this.withQueue
      (this.queuedAttestations.filter (!·.slot ≤ this.fcStore.currentSlot)) votes synced := by
  rw [processAttestationQueue]
  generalize this.queuedAttestations.filter (!·.slot ≤ this.fcStore.currentSlot) = queue
  generalize this.queuedAttestations.filter (·.slot ≤ this.fcStore.currentSlot) = eligible
  obtain ⟨that, hthat⟩ : ∃ that : ForkChoice, that = { this with queuedAttestations := queue } :=
    ⟨_, rfl⟩
  rw [← hthat]
  have h : ∃ votes synced, eligible.foldl (fun this attestation =>
      this.addLatestMessages attestation.attestingIndices attestation.targetEpoch
        attestation.blockRoot) that = { that with votes, synced } := by
    clear hthat
    induction eligible generalizing that with
    | nil => exact ⟨that.votes, that.synced, rfl⟩
    | cons attestation eligible ih =>
      obtain ⟨votes, synced, h⟩ := ih (that.addLatestMessages attestation.attestingIndices
        attestation.targetEpoch attestation.blockRoot)
      obtain ⟨votes', synced', h'⟩ := that.exists_addLatestMessages attestation.attestingIndices
        attestation.targetEpoch attestation.blockRoot
      exact ⟨votes, synced, by rw [List.foldl_cons, h, h']⟩
  obtain ⟨votes, synced, h⟩ := h
  exact ⟨votes, synced, by rw [h, hthat]⟩

/-- Whether the start of an epoch makes the best justified checkpoint the justified one. -/
def pullsUp (this : ForkChoice) : Except ForkChoiceError Bool :=
  if this.fcStore.justifiedCheckpoint.epoch < this.fcStore.bestJustifiedCheckpoint.epoch then
    (this.getAncestor this.fcStore.bestJustifiedCheckpoint.rootHex
      (computeStartSlotAtEpoch this.fcStore.finalizedCheckpoint.epoch)).map
        (· = this.fcStore.finalizedCheckpoint.rootHex)
  else
    .ok false

def pulledUp (this : ForkChoice) (pulls : Bool) : ForkChoice :=
  if pulls then
    this.updateJustified this.fcStore.bestJustifiedCheckpoint this.bestJustifiedBalances
  else
    this

theorem startEpoch_run (this : ForkChoice) :
    startEpoch.run this =
      match this.pullsUp with
      | .error e => .error e this
      | .ok pulls => .ok ⟨⟩ (this.pulledUp pulls) := by
  rw [startEpoch, EStateM.run_bind, EStateM.run_get, pullsUp]
  simp only [run_ite, gt_iff_lt]
  split
  · simp only [EStateM.run_bind, run_ofExcept]
    cases this.getAncestor this.fcStore.bestJustifiedCheckpoint.rootHex
        (computeStartSlotAtEpoch this.fcStore.finalizedCheckpoint.epoch) with
    | error e => rfl
    | ok root =>
      simp only [atState_ok, run_ite, Except.map, pulledUp, decide_eq_true_eq]
      split <;> rfl
  · rfl

theorem onTick_run (this : ForkChoice) :
    (onTick (this.fcStore.currentSlot + 1)).run this =
      if (this.fcStore.currentSlot + 1) % SLOTS_PER_EPOCH = 0 then
        startEpoch.run (this.setTime (this.fcStore.currentSlot + 1))
      else
        .ok ⟨⟩ (this.setTime (this.fcStore.currentSlot + 1)) := by
  rw [onTick, EStateM.run_bind, EStateM.run_get]
  simp only [run_ite, gt_iff_lt, lt_irrefl, if_false, EStateM.run_bind, EStateM.run_modify,
    computeSlotsSinceEpochStart_eq]
  by_cases h : (this.fcStore.currentSlot + 1) % SLOTS_PER_EPOCH = 0
  · rw [if_neg (not_not.mpr h), if_pos h]
  · rw [if_pos h, if_neg h]
    rfl

theorem tickSlots_succ_run (slots : Nat) :
    (tickSlots (slots + 1)).run this =
      match (onTick (this.fcStore.currentSlot + 1)).run this with
      | .ok _ that => (tickSlots slots).run that
      | .error e that => .error e that := by
  rw [tickSlots, EStateM.run_bind, EStateM.run_get]
  simp only [EStateM.run_bind]
  cases (onTick (this.fcStore.currentSlot + 1)).run this <;> rfl

/-- The end of `updateTime`. -/
def drained (this : ForkChoice) : ForkChoice :=
  { this.processAttestationQueue with validatedAttestationDatas := [] }

theorem updateTime_run (currentSlot : Nat) :
    (updateTime currentSlot).run this =
      match (tickSlots (currentSlot - this.fcStore.currentSlot)).run this with
      | .ok _ that => .ok ⟨⟩ that.drained
      | .error e that => .error e that := by
  rw [updateTime, EStateM.run_bind, EStateM.run_get]
  simp only [EStateM.run_bind]
  cases (tickSlots (currentSlot - this.fcStore.currentSlot)).run this <;> rfl

omit [Preset] in
@[simp] theorem protoArray_setTime (time : Nat) :
    (this.setTime time).protoArray = this.protoArray := by
  rw [setTime]
  split <;> rfl

omit [Preset] in
@[simp] theorem fcStore_setTime (time : Nat) :
    (this.setTime time).fcStore = { this.fcStore with currentSlot := time } := by
  rw [setTime]
  split <;> rfl

omit [Preset] in
@[simp] theorem queuedAttestations_setTime (time : Nat) :
    (this.setTime time).queuedAttestations = this.queuedAttestations := by
  rw [setTime]
  split <;> rfl

omit [Preset] in
@[simp] theorem protoArray_drained : this.drained.protoArray = this.protoArray := by
  obtain ⟨votes, synced, heq⟩ := this.exists_processAttestationQueue
  rw [drained, heq]

omit [Preset] in
@[simp] theorem fcStore_drained : this.drained.fcStore = this.fcStore := by
  obtain ⟨votes, synced, heq⟩ := this.exists_processAttestationQueue
  rw [drained, heq]

omit [Preset] in
@[simp] theorem queuedAttestations_drained :
    this.drained.queuedAttestations
      = this.queuedAttestations.filter (!·.slot ≤ this.fcStore.currentSlot) := by
  obtain ⟨votes, synced, heq⟩ := this.exists_processAttestationQueue
  rw [drained, heq]

omit [Preset] in
@[simp] theorem protoArray_pulledUp (pulls : Bool) :
    (this.pulledUp pulls).protoArray = this.protoArray := by
  rw [pulledUp]
  split <;> rfl

omit [Preset] in
@[simp] theorem queuedAttestations_pulledUp (pulls : Bool) :
    (this.pulledUp pulls).queuedAttestations = this.queuedAttestations := by
  rw [pulledUp]
  split <;> rfl

omit [Preset] in
theorem fcStore_pulledUp (pulls : Bool) :
    (this.pulledUp pulls).fcStore = { this.fcStore with
      justifiedCheckpoint :=
        if pulls then this.fcStore.bestJustifiedCheckpoint
        else this.fcStore.justifiedCheckpoint } := by
  rw [pulledUp]
  cases pulls <;> rfl

theorem pullsUp_eq_true (h : this.pullsUp = .ok true) :
    this.fcStore.justifiedCheckpoint.epoch < this.fcStore.bestJustifiedCheckpoint.epoch ∧
      this.getAncestor this.fcStore.bestJustifiedCheckpoint.rootHex
        (computeStartSlotAtEpoch this.fcStore.finalizedCheckpoint.epoch)
          = .ok this.fcStore.finalizedCheckpoint.rootHex := by
  rw [pullsUp] at h
  split at h
  · rename_i hlt
    refine ⟨hlt, ?_⟩
    cases hroot : this.getAncestor this.fcStore.bestJustifiedCheckpoint.rootHex
        (computeStartSlotAtEpoch this.fcStore.finalizedCheckpoint.epoch) with
    | error e =>
      rw [hroot] at h
      cases h
    | ok root =>
      rw [hroot] at h
      exact congrArg _ (of_decide_eq_true (Except.ok.inj h))
  · cases h

theorem tickSlots_preserves {P : ForkChoice → Prop}
    (hset : ∀ (this : ForkChoice) time, P this → P (this.setTime time))
    (hpull : ∀ (this : ForkChoice) pulls, this.pullsUp = .ok pulls → P this →
      P (this.pulledUp pulls)) (slots : Nat) (h : P this) :
    P (stateOf ((tickSlots slots).run this)) := by
  have htick : ∀ this : ForkChoice, P this →
      P (stateOf ((onTick (this.fcStore.currentSlot + 1)).run this)) := by
    intro this h
    rw [onTick_run, startEpoch_run]
    split
    · cases hpulls : (this.setTime (this.fcStore.currentSlot + 1)).pullsUp with
      | error e => exact hset this _ h
      | ok pulls => exact hpull _ pulls hpulls (hset this _ h)
    · exact hset this _ h
  induction slots generalizing this with
  | zero => exact h
  | succ slots ih =>
    have hfirst := htick this h
    rw [tickSlots_succ_run]
    cases hrun : (onTick (this.fcStore.currentSlot + 1)).run this with
    | error e that => rwa [hrun] at hfirst
    | ok _ that =>
      rw [hrun] at hfirst
      exact ih hfirst

theorem updateTime_preserves {P : ForkChoice → Prop}
    (hset : ∀ (this : ForkChoice) time, P this → P (this.setTime time))
    (hpull : ∀ (this : ForkChoice) pulls, this.pullsUp = .ok pulls → P this →
      P (this.pulledUp pulls))
    (hdrain : ∀ this : ForkChoice, P this → P this.drained) {currentSlot : Nat} {u : Unit}
    (hcall : (updateTime currentSlot).run this = .ok u this') (h : P this) : P this' := by
  have hticks := tickSlots_preserves hset hpull (currentSlot - this.fcStore.currentSlot) h
  rw [updateTime_run] at hcall
  cases hrun : (tickSlots (currentSlot - this.fcStore.currentSlot)).run this with
  | error e that =>
    rw [hrun] at hcall
    cases hcall
  | ok _ that =>
    rw [hrun] at hcall hticks
    cases hcall
    exact hdrain that hticks

/-! ## Pruning -/

omit [Preset] in
theorem prune_run (finalizedRoot : RootHex) :
    (prune finalizedRoot).run this =
      match this.protoArray.maybePrune finalizedRoot with
      | .error e => .error (.protoArray e) this
      | .ok (removed, protoArray) => .ok removed { this with protoArray } := by
  rw [prune, EStateM.run_bind, EStateM.run_get]
  simp only [EStateM.run_bind, run_ofExcept]
  cases this.protoArray.maybePrune finalizedRoot <;> rfl

end Lodestar.ForkChoice

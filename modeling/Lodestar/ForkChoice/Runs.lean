import Lodestar.ForkChoice.Calls

/-!
# Runs of a fork choice

A fork choice is created on a proto array and then called any number of times;
a call that throws leaves what it had written (`ForkChoice.Reachable`). The proto
array goes through its own methods only, so it stays well formed.
-/

namespace Lodestar.ForkChoice

open Lodestar.Base Lodestar.StateTransition

section Runs

variable [Preset] {this this' : ForkChoice}

/-! ## What the checkpoints' updates leave alone -/

/-- `f` reads nothing that has to do with the checkpoints. -/
structure Frame {α : Type} (f : ForkChoice → α) : Prop where
  updateJustified : ∀ (this : ForkChoice) (checkpoint : CheckpointWithHex)
    (balances : EffectiveBalanceIncrements), f (this.updateJustified checkpoint balances) = f this
  updateBestJustified : ∀ (this : ForkChoice) (checkpoint : CheckpointWithHex)
    (balances : EffectiveBalanceIncrements),
    f (this.updateBestJustified checkpoint balances) = f this
  updateFinalized : ∀ (this : ForkChoice) (checkpoint : CheckpointWithHex),
    f (this.updateFinalized checkpoint) = f this

namespace Frame

variable {α : Type} {f : ForkChoice → α}

theorem withBest (h : Frame f) (state : BeaconState) (balances : EffectiveBalanceIncrements) :
    f (this.withBest state balances) = f this := by
  rw [ForkChoice.withBest]
  split
  · exact h.updateBestJustified _ _ _
  · rfl

theorem withFinalized (h : Frame f) (state : BeaconState) : f (this.withFinalized state) = f this := by
  rw [ForkChoice.withFinalized]
  split
  · exact h.updateFinalized _ _
  · rfl

theorem withCheckpoints (h : Frame f) (state : BeaconState)
    (balances : EffectiveBalanceIncrements) (takes : Bool) :
    f (this.withCheckpoints state balances takes) = f this := by
  have hthat : f ((this.withBest state balances).withFinalized state) = f this :=
    (h.withFinalized state).trans (h.withBest state balances)
  rw [ForkChoice.withCheckpoints]
  split
  · exact (h.updateJustified _ _ _).trans hthat
  · exact hthat

theorem updateCheckpoints (h : Frame f) (state : BeaconState)
    (preCachedData : Option OnBlockPrecachedData) :
    f (stateOf ((updateCheckpoints state preCachedData).run this)) = f this := by
  rcases updateCheckpoints_cases this state preCachedData with
    ⟨-, -, hrun⟩ | ⟨-, -, -, hrun⟩ | ⟨balances, -, hrun⟩ <;> rw [hrun]
  · rfl
  · exact h.updateFinalized _ _
  · cases this.takesJustified state with
    | ok takes => exact h.withCheckpoints state balances takes
    | error e => exact h.withBest state balances

end Frame

/-- What has to do with neither the checkpoints nor the boost nor the array, `onBlock` leaves. -/
theorem Frame.onBlock {α : Type} {f : ForkChoice → α} (h : Frame f)
    (hboost : ∀ (this : ForkChoice) block preCachedData,
      f (this.withBoost block preCachedData) = f this)
    (harray : ∀ (this : ForkChoice) protoArray, f { this with protoArray } = f this)
    (block : BeaconBlock) (state : BeaconState) (preCachedData : Option OnBlockPrecachedData) :
    f (stateOf ((ForkChoice.onBlock block state preCachedData).run this)) = f this := by
  have hcheckpoints : f (stateOf ((ForkChoice.updateCheckpoints state preCachedData).run this)) = f this :=
    h.updateCheckpoints state preCachedData
  rw [onBlock_run]
  cases this.entryChecks block state preCachedData with
  | error e => rfl
  | ok _ =>
    dsimp only
    cases hrun : (ForkChoice.updateCheckpoints state preCachedData).run this with
    | error e that => rwa [hrun] at hcheckpoints
    | ok _ that =>
      rw [hrun] at hcheckpoints
      dsimp only
      have hboosted : f (that.withBoost block preCachedData) = f this :=
        (hboost that block preCachedData).trans hcheckpoints
      rcases updateProposerBoost_run that block preCachedData with hrun | ⟨-, e, hrun⟩ <;>
        rw [hrun]
      · dsimp only
        rw [addBlock_run]
        cases blockExecution block state preCachedData with
        | error e => exact hboosted
        | ok execution =>
          dsimp only
          cases (that.withBoost block preCachedData).protoArray.onBlock
              (protoBlock block state execution) with
          | error e => exact hboosted
          | ok protoArray => exact (harray _ protoArray).trans hboosted
      · exact hcheckpoints

/-! ## One call -/

/-- A call from outside. -/
inductive Call where
  | onBlock (block : BeaconBlock) (state : BeaconState)
      (preCachedData : Option OnBlockPrecachedData)
  | onAttestation (attestation : IndexedAttestation)
  | updateTime (currentSlot : Nat)
  | updateHead
  | prune (finalizedRoot : RootHex)
  | setPruneThreshold (threshold : Nat)

def Call.apply : Call → ForkChoiceM Unit
  | .onBlock block state preCachedData => ForkChoice.onBlock block state preCachedData
  | .onAttestation attestation => ForkChoice.onAttestation attestation
  | .updateTime currentSlot => ForkChoice.updateTime currentSlot
  | .updateHead => ForkChoice.updateHead >>= fun _ => pure ()
  | .prune finalizedRoot => ForkChoice.prune finalizedRoot >>= fun _ => pure ()
  | .setPruneThreshold threshold => ForkChoice.setPruneThreshold threshold

/-- The proto array goes through its methods. -/
def ArrayMoves (this this' : ForkChoice) : Prop :=
  Relation.ReflTransGen ProtoArray.Step this.protoArray this'.protoArray

/-- The proto array goes through its methods other than `onBlock`. -/
def QuietMoves (this this' : ForkChoice) : Prop :=
  Relation.ReflTransGen ProtoArray.QuietStep this.protoArray this'.protoArray

omit [Preset] in
theorem QuietMoves.arrayMoves (h : QuietMoves this this') : ArrayMoves this this' :=
  Relation.ReflTransGen.mono (fun _ _ => ProtoArray.QuietStep.step) _ _ h

theorem protoArray_onBlock (this : ForkChoice) (block : BeaconBlock) (state : BeaconState)
    (preCachedData : Option OnBlockPrecachedData) :
    (stateOf ((onBlock block state preCachedData).run this)).protoArray = this.protoArray ∨
      this.entryChecks block state preCachedData = .ok () ∧ ∃ execution,
        this.protoArray.onBlock (protoBlock block state execution)
          = .ok (stateOf ((onBlock block state preCachedData).run this)).protoArray := by
  have hframe : Frame protoArray := ⟨fun _ _ _ => rfl, fun _ _ _ => rfl, fun _ _ => rfl⟩
  have hcheckpoints : (stateOf ((updateCheckpoints state preCachedData).run this)).protoArray
      = this.protoArray := hframe.updateCheckpoints state preCachedData
  rw [onBlock_run]
  cases this.entryChecks block state preCachedData with
  | error e => exact .inl rfl
  | ok _ =>
    dsimp only
    cases hrun : (updateCheckpoints state preCachedData).run this with
    | error e that =>
      rw [hrun] at hcheckpoints
      exact .inl hcheckpoints
    | ok _ that =>
      rw [hrun] at hcheckpoints
      dsimp only
      have hboosted : (that.withBoost block preCachedData).protoArray = this.protoArray := by
        rw [withBoost]
        split <;> exact hcheckpoints
      rcases updateProposerBoost_run that block preCachedData with h | ⟨-, e, h⟩ <;>
        rw [h]
      · dsimp only
        rw [addBlock_run, hboosted]
        cases blockExecution block state preCachedData with
        | error e => exact .inl hboosted
        | ok execution =>
          dsimp only
          cases hcall : this.protoArray.onBlock (protoBlock block state execution) with
          | error e => exact .inl hboosted
          | ok protoArray => exact .inr ⟨rfl, execution, hcall⟩
      · exact .inl hcheckpoints

namespace QuietMoves

omit [Preset] in
theorem of_eq (h : this'.protoArray = this.protoArray) : QuietMoves this this' := by
  rw [QuietMoves, h]

theorem updateHead : Moves QuietMoves updateHead := by
  intro this
  have hcache : ∀ that : ForkChoice, QuietMoves that (stateOf (cacheHead.run that)) := by
    intro that
    rcases cacheHead_run that with ⟨e, h⟩ | ⟨node, h⟩ <;> rw [h] <;> exact .of_eq rfl
  rw [updateHead_run]
  split
  · exact hcache this
  · rw [updateScores_run]
    cases computeDeltas this.protoArray.indices this.votes this.justifiedBalances
        this.justifiedBalances with
    | error e => exact .of_eq rfl
    | ok result =>
      obtain ⟨deltas, votes⟩ := result
      dsimp only
      cases hcall : this.protoArray.applyScoreChanges (this.scoreChanges deltas) with
      | error e => exact .of_eq rfl
      | ok protoArray =>
        exact .trans (.single (.applyScoreChanges _ hcall))
          (hcache { this.withVotes votes with protoArray, synced := true })

omit [Preset] in
theorem prune (finalizedRoot : RootHex) : Moves QuietMoves (prune finalizedRoot) := by
  intro this
  rw [prune_run]
  cases hcall : this.protoArray.maybePrune finalizedRoot with
  | error e => exact .of_eq rfl
  | ok result => exact .single (.maybePrune finalizedRoot result.1 hcall)

theorem onAttestation (attestation : IndexedAttestation) :
    Moves QuietMoves (onAttestation attestation) := by
  intro this
  rcases onAttestation_run this attestation with ⟨e, h⟩ | ⟨-, h⟩ | ⟨-, seen, h⟩ <;> rw [h]
  · exact .of_eq rfl
  · exact .of_eq rfl
  · obtain ⟨queue, votes, synced, heq⟩ :=
      exists_withAttestation { this with validatedAttestationDatas := seen } attestation
    rw [heq]
    exact .of_eq rfl

omit [Preset] in
theorem setTime (time : Nat) : QuietMoves this (this.setTime time) :=
  .of_eq (protoArray_setTime time)

theorem startEpoch : Moves QuietMoves startEpoch := by
  intro this
  rw [startEpoch_run]
  cases this.pullsUp with
  | error e => exact .of_eq rfl
  | ok pulls => cases pulls <;> exact .of_eq rfl

theorem onTick (this : ForkChoice) :
    QuietMoves this (stateOf ((onTick (this.fcStore.currentSlot + 1)).run this)) := by
  rw [onTick_run]
  split
  · exact (setTime _).trans (startEpoch _)
  · exact setTime _

theorem tickSlots (slots : Nat) : Moves QuietMoves (tickSlots slots) := by
  induction slots with
  | zero => exact fun _ => .of_eq rfl
  | succ slots ih =>
    intro this
    have htick := onTick this
    rw [tickSlots_succ_run]
    cases hrun : (ForkChoice.onTick (this.fcStore.currentSlot + 1)).run this with
    | ok _ that =>
      rw [hrun] at htick
      exact htick.trans (ih that)
    | error e that =>
      rw [hrun] at htick
      exact htick

theorem updateTime (currentSlot : Nat) : Moves QuietMoves (updateTime currentSlot) := by
  intro this
  have hticks := tickSlots (currentSlot - this.fcStore.currentSlot) this
  rw [updateTime_run]
  cases hrun : (ForkChoice.tickSlots (currentSlot - this.fcStore.currentSlot)).run this with
  | ok _ that =>
    rw [hrun] at hticks
    exact hticks.trans (QuietMoves.of_eq protoArray_drained)
  | error e that =>
    rw [hrun] at hticks
    exact hticks

theorem apply {call : Call} (h : ∀ block state preCachedData, call ≠ .onBlock block state preCachedData) :
    Moves QuietMoves call.apply := by
  have hdiscard : ∀ {α : Type} {x : ForkChoiceM α}, Moves QuietMoves x →
      Moves QuietMoves (x >>= fun _ => pure ()) := fun hx =>
    Moves.bind (fun hab hbc => Relation.ReflTransGen.trans hab hbc) hx fun _ _ => .of_eq rfl
  cases call with
  | onBlock block state preCachedData => exact absurd rfl (h block state preCachedData)
  | onAttestation attestation => exact onAttestation attestation
  | updateTime currentSlot => exact updateTime currentSlot
  | updateHead => exact hdiscard updateHead
  | prune finalizedRoot => exact hdiscard (prune finalizedRoot)
  | setPruneThreshold threshold => exact fun this => .single (.setPruneThreshold _ threshold)

end QuietMoves

theorem ArrayMoves.apply (call : Call) : Moves ArrayMoves call.apply := by
  by_cases h : ∃ block state preCachedData, call = .onBlock block state preCachedData
  · obtain ⟨block, state, preCachedData, rfl⟩ := h
    intro this
    rcases protoArray_onBlock this block state preCachedData with heq | ⟨-, execution, hcall⟩
    · exact QuietMoves.arrayMoves (.of_eq heq)
    · exact .single (.onBlock _ hcall)
  · intro this
    refine (QuietMoves.apply (fun block state preCachedData heq => h ?_) this).arrayMoves
    exact ⟨block, state, preCachedData, heq⟩

/-! ## Runs -/

omit [Preset] in
theorem ProtoArray.Reachable.run {array array' : ProtoArray} (h : array.Reachable)
    (hrun : Relation.ReflTransGen ProtoArray.Step array array') : array'.Reachable := by
  obtain ⟨a, b, c, d, r, hr⟩ := h
  exact ⟨a, b, c, d, r, hr.trans hrun⟩

/-- A new fork choice, on a proto array that may have been in use. -/
def Created (this : ForkChoice) : Prop :=
  ∃ (config : ChainConfig) (currentSlot : Nat)
    (justifiedCheckpoint finalizedCheckpoint : Checkpoint) (protoArray : ProtoArray)
    (justifiedBalances : EffectiveBalanceIncrements) (proposerBoostEnabled : Bool),
    protoArray.Reachable ∧
      ForkChoice.new config (ForkChoiceStore currentSlot justifiedCheckpoint finalizedCheckpoint)
        protoArray justifiedBalances proposerBoostEnabled = .ok this

/-- The state after a call, which may have thrown. -/
def Step (this this' : ForkChoice) : Prop :=
  ∃ call : Call, stateOf (call.apply.run this) = this'

def Reachable (this : ForkChoice) : Prop :=
  ∃ start : ForkChoice, Created start ∧ Relation.ReflTransGen Step start this

theorem updateHead_of_new {config : ChainConfig} {fcStore : IForkChoiceStore} {protoArray : ProtoArray}
    {balances : EffectiveBalanceIncrements} {boost : Bool}
    (h : ForkChoice.new config fcStore protoArray balances boost = .ok this) :
    ∃ node, updateHead.run (initial config fcStore protoArray balances boost) = .ok node this := by
  rw [ForkChoice.new] at h
  cases hrun : updateHead.run (initial config fcStore protoArray balances boost) with
  | ok node that =>
    rw [hrun] at h
    cases h
    exact ⟨node, rfl⟩
  | error e that =>
    rw [hrun] at h
    cases h

theorem Created.protoArray_reachable (h : Created this) : this.protoArray.Reachable := by
  obtain ⟨config, currentSlot, justified, finalized, protoArray, balances, boost, hr, hnew⟩ := h
  obtain ⟨node, hrun⟩ := updateHead_of_new hnew
  have hmoves := QuietMoves.updateHead (initial config
    (ForkChoiceStore currentSlot justified finalized) protoArray balances boost)
  rw [hrun] at hmoves
  exact hr.run hmoves.arrayMoves

theorem Reachable.protoArray_reachable (h : this.Reachable) : this.protoArray.Reachable := by
  obtain ⟨start, hcreated, hrun⟩ := h
  induction hrun with
  | refl => exact hcreated.protoArray_reachable
  | tail _ hstep ih =>
    obtain ⟨call, rfl⟩ := hstep
    exact ih.run (ArrayMoves.apply call _)

theorem Reachable.step (h : this.Reachable) (hstep : Step this this') : this'.Reachable := by
  obtain ⟨start, hcreated, hrun⟩ := h
  exact ⟨start, hcreated, hrun.tail hstep⟩

/-- The state after some calls. -/
def afterCalls (this : ForkChoice) (calls : List Call) : ForkChoice :=
  calls.foldl (fun this call => stateOf (call.apply.run this)) this

theorem Reachable.afterCalls (h : this.Reachable) (calls : List Call) :
    (this.afterCalls calls).Reachable := by
  induction calls generalizing this with
  | nil => exact h
  | cons call calls ih => exact ih (h.step ⟨call, rfl⟩)

/-- `P` holds of each call in the state that the calls before it have left. -/
def ForallCalls (P : ForkChoice → Call → Prop) : ForkChoice → List Call → Prop
  | _, [] => True
  | this, call :: calls => P this call ∧ ForallCalls P (stateOf (call.apply.run this)) calls

instance ForallCalls.decidable {P : ForkChoice → Call → Prop} [∀ this call, Decidable (P this call)] :
    ∀ (this : ForkChoice) (calls : List Call), Decidable (ForallCalls P this calls)
  | _, [] => inferInstanceAs (Decidable True)
  | this, call :: calls =>
    letI _rest : Decidable (ForallCalls P (stateOf (call.apply.run this)) calls) :=
      ForallCalls.decidable _ calls
    inferInstanceAs (Decidable (P this call ∧ ForallCalls P (stateOf (call.apply.run this)) calls))

theorem ForallCalls.run {P : ForkChoice → Call → Prop} {R : ForkChoice → ForkChoice → Prop}
    (hP : ∀ this call, P this call → R this (stateOf (call.apply.run this))) {calls : List Call}
    (h : ForallCalls P this calls) : Relation.ReflTransGen R this (this.afterCalls calls) := by
  induction calls generalizing this with
  | nil => exact .refl
  | cons call calls ih => exact .head (hP this call h.1) (ih h.2)

end Runs

/-! ## A fork choice at genesis -/

attribute [local instance] minimal

/-- The genesis block, which is its own justified and finalized checkpoint. -/
def genesisBlock : IProtoBlock where
  slot := 0
  blockRoot := 0xaa
  parentRoot := 0
  stateRoot := 0
  targetRoot := 0xaa
  justifiedEpoch := 0
  justifiedRoot := 0xaa
  finalizedEpoch := 0
  finalizedRoot := 0xaa
  execution := .preMerge

def genesisArray : ProtoArray :=
  okOr (ProtoArray.empty 0 0 0xaa 0 0xaa) (ProtoArray.initializeProtoArray genesisBlock)

theorem genesisArray_reachable : genesisArray.Reachable := by
  have hcall : (ProtoArray.empty 0 0 0xaa 0 0xaa).onBlock genesisBlock = .ok genesisArray :=
    eq_ok_okOr _ (by decide +kernel)
  exact ⟨0, 0, 0xaa, 0, 0xaa, .single (.onBlock genesisBlock hcall)⟩

/-- One validator with a balance of one increment. -/
def genesisChoice (proposerBoostEnabled : Bool) : ForkChoice :=
  let fcStore := ForkChoiceStore 0 ⟨0, 0xaa⟩ ⟨0, 0xaa⟩
  okOr (initial chainConfigMinimal fcStore genesisArray [1] proposerBoostEnabled)
    (new chainConfigMinimal fcStore genesisArray [1] proposerBoostEnabled)

theorem genesisChoice_created (proposerBoostEnabled : Bool) :
    Created (genesisChoice proposerBoostEnabled) := by
  have hnew : ∀ boost : Bool, (new chainConfigMinimal (ForkChoiceStore 0 ⟨0, 0xaa⟩ ⟨0, 0xaa⟩)
      genesisArray [1] boost).isOk = true := by decide +kernel
  exact ⟨chainConfigMinimal, 0, ⟨0, 0xaa⟩, ⟨0, 0xaa⟩, genesisArray, [1], proposerBoostEnabled,
    genesisArray_reachable, eq_ok_okOr _ (hnew proposerBoostEnabled)⟩

/-- A block before the merge. -/
def plainBlock (slot : Nat) (hashTreeRoot parentRoot : Root) : BeaconBlock where
  slot
  parentRoot
  stateRoot := 0
  executionPayload := none
  hashTreeRoot

/-- The state after a block, by its checkpoints. -/
def plainState (slot : Nat) (currentJustifiedCheckpoint finalizedCheckpoint : Checkpoint) :
    BeaconState where
  slot
  blockRoots := Vector.replicate SLOTS_PER_HISTORICAL_ROOT 0
  currentJustifiedCheckpoint
  finalizedCheckpoint
  latestExecutionPayloadHeader := none

/-- What comes with a block that is late for its slot. -/
def lateData (justifiedBalances : Option EffectiveBalanceIncrements) : OnBlockPrecachedData where
  justifiedBalances
  blockDelaySec := 5

end Lodestar.ForkChoice

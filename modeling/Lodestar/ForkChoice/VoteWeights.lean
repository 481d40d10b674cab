import Lodestar.ForkChoice.AppliedVotes
import Lodestar.ForkChoice.Weights

/-!
# Weights and latest messages

`updateHead` counts a vote with the justified balances it finds and takes it
away with those it finds later. Where no call replaces balances that votes have
been counted with, and no block comes in that something counts for already
(`KeepsWeights`), the weights are those of the latest messages (`countsLatest`).
-/

namespace Lodestar.ForkChoice

open Lodestar.Base Lodestar.StateTransition

section Main

variable [Preset] {this this' : ForkChoice}

/-! ## The weights of a fork choice -/

omit [Preset] in
/-- What the votes that are in the weights give a block, with some balances. -/
def counted (this : ForkChoice) (balances : EffectiveBalanceIncrements) (root : RootHex) : Int :=
  support (·.currentRoot) this.votes balances root

/-- What a block has of its own in the weights. -/
def own (this : ForkChoice) (root : RootHex) : Int :=
  this.counted this.justifiedBalances root
    + ProtoArray.boostAt this.protoArray.previousProposerBoost root

/-- The score of the boost for the justified balances. -/
def boostScore (this : ForkChoice) : Nat :=
  computeProposerBoostScoreFromBalances this.justifiedBalances SLOTS_PER_EPOCH
    this.config.PROPOSER_SCORE_BOOST

/-- The weights are those of the votes counted so far, with the justified balances of now. -/
structure Weighed (this : ForkChoice) : Prop where
  array : this.protoArray.Weighs this.own
  boost : ∀ root, 0 ≤ ProtoArray.boostAt this.protoArray.previousProposerBoost root
  score : ∀ score, this.justifiedProposerBoostScore = some score → score = this.boostScore

/-- The balances give each block what the justified ones do. -/
def SameSupport (this : ForkChoice) (balances : EffectiveBalanceIncrements) : Prop :=
  ∀ node ∈ this.protoArray.nodes, node.blockRoot ≠ HEX_ZERO_HASH →
    this.counted balances node.blockRoot = this.counted this.justifiedBalances node.blockRoot

theorem Weighed.of_array (h : this.Weighed) {protoArray : ProtoArray}
    (harray : protoArray.Weighs this.own)
    (hboost : protoArray.previousProposerBoost = this.protoArray.previousProposerBoost) :
    Weighed { this with protoArray } := by
  refine ⟨harray.congr fun node _ _ => ?_, fun root => ?_, h.score⟩
  · change this.counted this.justifiedBalances node.blockRoot
      + ProtoArray.boostAt protoArray.previousProposerBoost node.blockRoot = _
    rw [hboost]
    rfl
  · change 0 ≤ ProtoArray.boostAt protoArray.previousProposerBoost root
    rw [hboost]
    exact h.boost root

theorem Weighed.proposerBoostScore_eq (h : this.Weighed) :
    this.proposerBoostScore = this.boostScore := by
  rw [proposerBoostScore]
  cases hscore : this.justifiedProposerBoostScore with
  | none => rfl
  | some score => exact h.score score hscore

theorem Weighed.congr (h : this.Weighed) (harray : this'.protoArray = this.protoArray)
    (hvotes : ∀ v, rootOf (·.currentRoot) this'.votes v = rootOf (·.currentRoot) this.votes v)
    (hbalances : this'.justifiedBalances = this.justifiedBalances)
    (hconfig : this'.config = this.config)
    (hscore : this'.justifiedProposerBoostScore = this.justifiedProposerBoostScore) :
    this'.Weighed where
  array := by
    rw [harray]
    refine h.array.congr fun node _ hroot => ?_
    rw [own, own, counted, counted, harray, hbalances, support_congr hroot hvotes]
  boost root := by
    rw [harray]
    exact h.boost root
  score score hsome := by
    rw [boostScore, hbalances, hconfig]
    exact h.score score (hscore.symm.trans hsome)

theorem Weighed.updateJustified (h : this.Weighed) {balances : EffectiveBalanceIncrements}
    (hsame : this.SameSupport balances) (checkpoint : CheckpointWithHex) :
    (this.updateJustified checkpoint balances).Weighed where
  array := h.array.congr fun node hmem hroot => congrArg (· + _) (hsame node hmem hroot)
  boost := h.boost
  score score hsome := by cases hsome

/-! ## Votes -/

omit [Preset] in
theorem rootOf_addVote (votes : List (Option IVoteTracker)) (validatorIndex nextEpoch : Nat)
    (nextRoot : RootHex) (v : Nat) :
    rootOf (·.currentRoot) (addVote votes validatorIndex nextEpoch nextRoot) v
      = rootOf (·.currentRoot) votes v := by
  rw [addVote]
  cases hold : votes.getD validatorIndex none with
  | none =>
    simp only [rootOf, getD_setVote]
    split_ifs with hv
    · rw [hv, hold]
      rfl
    · rfl
  | some vote =>
    dsimp only
    split_ifs with hlater
    · simp only [rootOf, getD_setVote]
      split_ifs with hv
      · rw [hv, hold]
        rfl
      · rfl
    · rfl

omit [Preset] in
theorem rootOf_addVotes (attestation : IQueuedAttestation) (votes : List (Option IVoteTracker))
    (v : Nat) :
    rootOf (·.currentRoot) (attestation.addVotes votes) v = rootOf (·.currentRoot) votes v := by
  rw [IQueuedAttestation.addVotes]
  generalize attestation.attestingIndices = indices
  induction indices generalizing votes with
  | nil => rfl
  | cons index indices ih => rw [List.foldl_cons, ih, rootOf_addVote]

theorem Weighed.onAttestation (h : this.Weighed) (attestation : IndexedAttestation) :
    (stateOf ((onAttestation attestation).run this)).Weighed := by
  rcases onAttestation_run this attestation with ⟨e, hrun⟩ | ⟨-, hrun⟩ | ⟨-, seen, hrun⟩ <;>
    rw [hrun]
  · exact h
  · exact h
  · have hseen : ({ this with validatedAttestationDatas := seen } : ForkChoice).Weighed :=
      h.congr rfl (fun _ => rfl) rfl rfl rfl
    rw [stateOf_ok, withAttestation]
    split
    · have hvotes := votes_addLatestMessages { this with validatedAttestationDatas := seen }
        (queuedOf attestation)
      obtain ⟨votes, synced, heq⟩ := exists_addLatestMessages
        { this with validatedAttestationDatas := seen } attestation.attestingIndices
        attestation.data.target.epoch attestation.data.beaconBlockRoot
      refine hseen.congr (by rw [heq]) (fun v => ?_) (by rw [heq]) (by rw [heq]) (by rw [heq])
      exact (congrArg (rootOf _ · v) hvotes).trans (rootOf_addVotes _ _ v)
    · exact hseen.congr rfl (fun _ => rfl) rfl rfl rfl

/-! ## The clock -/

theorem Weighed.setTime (h : this.Weighed) (time : Nat) : (this.setTime time).Weighed := by
  rw [ForkChoice.setTime]
  split
  · exact h.congr rfl (fun _ => rfl) rfl rfl rfl
  · exact h.congr rfl (fun _ => rfl) rfl rfl rfl

theorem Weighed.drained (h : this.Weighed) : this.drained.Weighed := by
  have hvotes : ∀ v, rootOf (·.currentRoot) this.drained.votes v
      = rootOf (·.currentRoot) this.votes v := by
    intro v
    rw [votes_drained]
    generalize this.queuedAttestations.filter (·.slot ≤ this.fcStore.currentSlot) = eligible
    generalize this.votes = votes
    induction eligible generalizing votes with
    | nil => rfl
    | cons attestation eligible ih => rw [List.foldl_cons, ih, rootOf_addVotes]
  obtain ⟨votes, synced, heq⟩ := this.exists_processAttestationQueue
  refine h.congr protoArray_drained hvotes ?_ ?_ ?_ <;> rw [ForkChoice.drained, heq]

theorem pullsUp_setTime (time : Nat) : (this.setTime time).pullsUp = this.pullsUp := by
  rw [pullsUp, pullsUp, fcStore_setTime, getAncestor, getAncestor, protoArray_setTime]

omit [Preset] in
theorem SameSupport.setTime {balances : EffectiveBalanceIncrements}
    (h : this.SameSupport balances) (time : Nat) : (this.setTime time).SameSupport balances := by
  rw [ForkChoice.setTime]
  split <;> exact h

omit [Preset] in
@[simp] theorem bestJustifiedBalances_setTime (time : Nat) :
    (this.setTime time).bestJustifiedBalances = this.bestJustifiedBalances := by
  rw [setTime]
  split <;> rfl

/-- The clock can take over the best justified balances. -/
def KeepsOnTick (this : ForkChoice) (slot : Nat) : Prop :=
  this.CrossesEpoch slot → this.pullsUp = .ok true → this.SameSupport this.bestJustifiedBalances

theorem KeepsOnTick.setTime {slot : Nat} (h : this.KeepsOnTick slot) {time : Nat}
    (htime : this.fcStore.currentSlot ≤ time) : (this.setTime time).KeepsOnTick slot := by
  rintro ⟨start, hlt, hle, hstart⟩ hpulls
  rw [fcStore_setTime] at hlt
  rw [pullsUp_setTime] at hpulls
  rw [bestJustifiedBalances_setTime]
  exact (h ⟨start, htime.trans_lt hlt, hle, hstart⟩ hpulls).setTime time

theorem Weighed.tickSlots (h : this.Weighed) (slots : Nat)
    (hkeeps : this.KeepsOnTick (this.fcStore.currentSlot + slots)) :
    (stateOf ((tickSlots slots).run this)).Weighed := by
  induction slots generalizing this with
  | zero => exact h
  | succ slots ih =>
    obtain ⟨that, hthat⟩ : ∃ that, that = this.setTime (this.fcStore.currentSlot + 1) := ⟨_, rfl⟩
    have hset : that.Weighed := hthat ▸ h.setTime _
    have hslot : that.fcStore.currentSlot = this.fcStore.currentSlot + 1 := by
      rw [hthat, fcStore_setTime]
    have hlast : this.fcStore.currentSlot + (slots + 1) = that.fcStore.currentSlot + slots := by
      rw [hslot]
      omega
    have hlater : that.KeepsOnTick (that.fcStore.currentSlot + slots) := by
      rw [← hlast, hthat]
      exact hkeeps.setTime (Nat.le_succ _)
    rw [tickSlots_succ_run, onTick_run, startEpoch_run, ← hthat]
    split_ifs with hepoch
    · cases hpulls : that.pullsUp with
      | error e => exact hset
      | ok pulls =>
        cases pulls with
        | false => exact ih hset hlater
        | true =>
          have hcrosses : this.CrossesEpoch (this.fcStore.currentSlot + (slots + 1)) :=
            ⟨this.fcStore.currentSlot + 1, Nat.lt_succ_self _, by omega, hepoch⟩
          have hsame : that.SameSupport that.bestJustifiedBalances := by
            rw [hthat, bestJustifiedBalances_setTime]
            refine (hkeeps hcrosses ?_).setTime _
            rwa [hthat, pullsUp_setTime] at hpulls
          -- the best checkpoint is the justified one from then on
          have hpulled : (that.pulledUp true).Weighed := hset.updateJustified hsame _
          refine ih hpulled fun _ hagain => ?_
          exact absurd (pullsUp_eq_true hagain).1 (lt_irrefl _)
    · exact ih hset hlater

theorem Weighed.updateTime (h : this.Weighed) {currentSlot : Nat}
    (hkeeps : this.KeepsOnTick (max this.fcStore.currentSlot currentSlot)) :
    (stateOf ((updateTime currentSlot).run this)).Weighed := by
  have hslots : max this.fcStore.currentSlot currentSlot
      = this.fcStore.currentSlot + (currentSlot - this.fcStore.currentSlot) := by omega
  have hticks := h.tickSlots (currentSlot - this.fcStore.currentSlot) (hslots ▸ hkeeps)
  rw [updateTime_run]
  cases hrun : (ForkChoice.tickSlots (currentSlot - this.fcStore.currentSlot)).run this with
  | ok _ that =>
    rw [hrun] at hticks
    exact hticks.drained
  | error e that => rwa [hrun] at hticks

/-! ## Blocks -/

/-- The justified balances once `onBlock` has updated the checkpoints. -/
def balancesAfter (this : ForkChoice) (state : BeaconState)
    (preCachedData : Option OnBlockPrecachedData) : EffectiveBalanceIncrements :=
  match this.takesJustified state, preCachedData.bind (·.justifiedBalances) with
  | .ok takes, some balances =>
    if takes ∨ this.RaisesFinalized state then balances else this.justifiedBalances
  | _, _ => this.justifiedBalances

/-- Nothing counts for the root, so that a block with it can come in with no weight. -/
structure Uncounted (this : ForkChoice) (balances : EffectiveBalanceIncrements) (root : RootHex) :
    Prop where
  not_alias : root ≠ HEX_ZERO_HASH
  support : this.counted balances root = 0
  boost : ProtoArray.boostAt this.protoArray.previousProposerBoost root = 0

/-- The block leaves the justified balances, or replaces them by ones that support the same, and is
one that nothing counts for if it is a new one. -/
def KeepsOnBlock (this : ForkChoice) (block : BeaconBlock) (state : BeaconState)
    (preCachedData : Option OnBlockPrecachedData) : Prop :=
  this.SameSupport (this.balancesAfter state preCachedData) ∧
    (this.protoArray.hasBlock block.hashTreeRoot = false →
      this.Uncounted (this.balancesAfter state preCachedData) block.hashTreeRoot)

theorem weighed_withBest (h : this.Weighed) (state : BeaconState)
    (balances : EffectiveBalanceIncrements) : (this.withBest state balances).Weighed := by
  rw [withBest]
  split
  · exact h.congr rfl (fun _ => rfl) rfl rfl rfl
  · exact h

theorem weighed_withFinalized (h : this.Weighed) (state : BeaconState) :
    (this.withFinalized state).Weighed := by
  rw [withFinalized]
  split
  · exact h.congr rfl (fun _ => rfl) rfl rfl rfl
  · exact h

theorem weighed_withBoost (h : this.Weighed) (block : BeaconBlock)
    (preCachedData : Option OnBlockPrecachedData) :
    (this.withBoost block preCachedData).Weighed := by
  rw [withBoost]
  split
  · exact h.congr rfl (fun _ => rfl) rfl rfl rfl
  · exact h

theorem justifiedBalances_withCheckpoints {state : BeaconState}
    {preCachedData : Option OnBlockPrecachedData} {balances : EffectiveBalanceIncrements}
    {takes : Bool} (htakes : this.takesJustified state = .ok takes)
    (hbalances : this.RaisesJustified state ∨ this.RaisesFinalized state →
      preCachedData.bind (·.justifiedBalances) = some balances) :
    (this.withCheckpoints state balances takes).justifiedBalances
      = this.balancesAfter state preCachedData := by
  have hkept : ((this.withBest state balances).withFinalized state).justifiedBalances
      = this.justifiedBalances := by
    rw [withFinalized, withBest]
    split_ifs <;> rfl
  rw [withCheckpoints, balancesAfter, htakes]
  by_cases hupdates : takes = true ∨ this.RaisesFinalized state
  · have hraises : this.RaisesJustified state ∨ this.RaisesFinalized state := by
      rcases hupdates with rfl | hf
      · exact .inl (raisesJustified_of_takes htakes)
      · exact .inr hf
    rw [if_pos hupdates, hbalances hraises]
    exact (if_pos hupdates).symm
  · rw [if_neg hupdates, hkept]
    cases preCachedData.bind (·.justifiedBalances) with
    | none => rfl
    | some balances => exact (if_neg hupdates).symm

theorem weighed_withCheckpoints (h : this.Weighed) {state : BeaconState}
    {balances : EffectiveBalanceIncrements} {takes : Bool}
    (hsame : this.SameSupport (this.withCheckpoints state balances takes).justifiedBalances) :
    (this.withCheckpoints state balances takes).Weighed := by
  have hthat := weighed_withFinalized (weighed_withBest h state balances) state
  rw [withCheckpoints] at hsame ⊢
  split
  · rename_i hupdates
    rw [if_pos hupdates] at hsame
    refine hthat.updateJustified ?_ _
    rw [withFinalized, withBest]
    split_ifs <;> exact hsame
  · exact hthat

theorem weighed_addBlock (h : this.Weighed) {block : BeaconBlock} {state : BeaconState}
    {preCachedData : Option OnBlockPrecachedData}
    (hfresh : this.protoArray.hasBlock block.hashTreeRoot = false →
      this.Uncounted this.justifiedBalances block.hashTreeRoot) :
    (stateOf ((addBlock block state preCachedData).run this)).Weighed := by
  rw [addBlock_run]
  cases blockExecution block state preCachedData with
  | error e => exact h
  | ok execution =>
    dsimp only
    cases hcall : this.protoArray.onBlock (protoBlock block state execution) with
    | error e => exact h
    | ok protoArray =>
      have hnew : this.protoArray.indices[(protoBlock block state execution).blockRoot]? = none →
          ((protoBlock block state execution).blockRoot = HEX_ZERO_HASH →
            this.protoArray.indices[(protoBlock block state execution).parentRoot]? = none) ∧
            this.own (protoBlock block state execution).blockRoot = 0 := by
        intro hnone
        have huncounted := hfresh (by
          rw [ProtoArray.hasBlock, Std.TreeMap.contains_eq_isSome_getElem?]
          exact congrArg Option.isSome hnone)
        refine ⟨fun halias => absurd halias huncounted.not_alias, ?_⟩
        change this.own block.hashTreeRoot = 0
        rw [own, huncounted.support, huncounted.boost, add_zero]
      obtain ⟨harray, hboost⟩ := h.array.onBlock hnew hcall
      exact h.of_array harray hboost

theorem Weighed.onBlock (h : this.Weighed) {block : BeaconBlock} {state : BeaconState}
    {preCachedData : Option OnBlockPrecachedData}
    (hkeeps : this.entryChecks block state preCachedData = .ok () →
      this.KeepsOnBlock block state preCachedData) :
    (stateOf ((onBlock block state preCachedData).run this)).Weighed := by
  rw [onBlock_run]
  cases hchecks : this.entryChecks block state preCachedData with
  | error e => exact h
  | ok u =>
    obtain ⟨hsame, hfresh⟩ := hkeeps hchecks
    dsimp only
    rcases updateCheckpoints_cases this state preCachedData with
      ⟨-, -, hrun⟩ | ⟨-, -, -, hrun⟩ | ⟨balances, hbalances, hrun⟩ <;> rw [hrun]
    · exact h
    · exact h.congr rfl (fun _ => rfl) rfl rfl rfl
    · cases htakes : this.takesJustified state with
      | error e => exact weighed_withBest h state balances
      | ok takes =>
        have hafter := justifiedBalances_withCheckpoints htakes hbalances
        have hthat := weighed_withCheckpoints h (hafter ▸ hsame)
        have hframe : Frame fun this : ForkChoice => (this.protoArray, this.votes) :=
          ⟨fun _ _ _ => rfl, fun _ _ _ => rfl, fun _ _ => rfl⟩
        have hboth : ((this.withCheckpoints state balances takes).protoArray,
            (this.withCheckpoints state balances takes).votes) = (this.protoArray, this.votes) :=
          hframe.withCheckpoints state balances takes
        have hkept := Prod.mk.inj hboth
        obtain ⟨that, heq⟩ : ∃ that, this.withCheckpoints state balances takes = that := ⟨_, rfl⟩
        rw [heq] at hafter hthat hkept
        dsimp only
        rw [heq]
        rcases updateProposerBoost_run that block preCachedData with hrun | ⟨-, e, hrun⟩ <;>
          rw [hrun]
        · refine weighed_addBlock (weighed_withBoost hthat block preCachedData) ?_
          have hboosted : (that.withBoost block preCachedData).protoArray = this.protoArray ∧
              (that.withBoost block preCachedData).votes = this.votes ∧
              (that.withBoost block preCachedData).justifiedBalances
                = this.balancesAfter state preCachedData := by
            rw [withBoost]
            split <;> exact ⟨hkept.1, hkept.2, hafter⟩
          obtain ⟨harray, hvotes, hjustified⟩ := hboosted
          rw [harray, hjustified]
          intro hnone
          obtain ⟨halias, hsupport, hboost⟩ := hfresh hnone
          exact ⟨halias, by rw [counted, hvotes]; exact hsupport, by rw [harray]; exact hboost⟩
        · exact hthat

/-! ## The head -/

/-- The votes that are in the weights are the latest messages, and so is the boost. -/
structure CountsAll (this : ForkChoice) : Prop where
  votes : ∀ v, rootOf (·.currentRoot) this.votes v = rootOf (·.nextRoot) this.votes v
  boost : this.protoArray.previousProposerBoost = this.proposerBoost

theorem weighed_cacheHead (h : this.Weighed) : (stateOf (cacheHead.run this)).Weighed := by
  rcases cacheHead_run this with ⟨e, hrun⟩ | ⟨node, hrun⟩ <;> rw [hrun]
  · exact h
  · exact h.congr rfl (fun _ => rfl) rfl rfl rfl

theorem countsAll_cacheHead (h : this.CountsAll) : (stateOf (cacheHead.run this)).CountsAll := by
  rcases cacheHead_run this with ⟨e, hrun⟩ | ⟨node, hrun⟩ <;> rw [hrun]
  · exact h
  · exact ⟨h.votes, h.boost⟩

theorem boostAt_proposerBoost_nonneg (root : RootHex) :
    0 ≤ ProtoArray.boostAt this.proposerBoost root := by
  rw [proposerBoost]
  split
  · simp only [ProtoArray.boostAt]
    split_ifs
    · exact Int.natCast_nonneg _
    · exact le_rfl
  · exact le_rfl

theorem proposerBoost_withVotes (votes : List (Option IVoteTracker)) :
    (this.withVotes votes).proposerBoost = this.proposerBoost := by
  have hscore : this.proposerBoostEnabled = true → ∀ root, this.proposerBoostRoot = some root →
      (this.withVotes votes).proposerBoostScore = this.proposerBoostScore := by
    intro henabled root hroot
    have hboost : this.proposerBoost = some ⟨root, this.proposerBoostScore⟩ := by
      rw [proposerBoost, henabled, hroot]
    rw [proposerBoostScore, withVotes, hboost, Option.getD_some]
  cases henabled : this.proposerBoostEnabled with
  | false => simp [proposerBoost, withVotes, henabled]
  | true =>
    cases hroot : this.proposerBoostRoot with
    | none => simp [proposerBoost, withVotes, henabled, hroot]
    | some root =>
      have henabled' : (this.withVotes votes).proposerBoostEnabled = true := henabled
      have hroot' : (this.withVotes votes).proposerBoostRoot = some root := hroot
      rw [proposerBoost, proposerBoost, henabled, hroot, henabled', hroot',
        hscore henabled root hroot]

/-- What a block is to have of its own. -/
def latestOwn (this : ForkChoice) (root : RootHex) : Int :=
  support (·.nextRoot) this.votes this.justifiedBalances root
    + ProtoArray.boostAt this.proposerBoost root

theorem Weighed.updateScores (h : this.Weighed) :
    ∃ that, updateScores.run this = .ok ⟨⟩ that ∧ that.Weighed ∧ that.CountsAll := by
  obtain ⟨deltas, hdeltas, hlength, hat⟩ := computeDeltas_spec h.array.toTree this.votes
    this.justifiedBalances this.justifiedBalances
  have hchange : ∀ {i : Nat} {node : IProtoNode}, this.protoArray.nodes[i]? = some node →
      node.blockRoot ≠ HEX_ZERO_HASH →
      this.latestOwn node.blockRoot = this.own node.blockRoot
        + ((this.scoreChanges deltas).deltas.getD i 0
          + (ProtoArray.boostAt (this.scoreChanges deltas).proposerBoost node.blockRoot
            - ProtoArray.boostAt this.protoArray.previousProposerBoost node.blockRoot)) := by
    intro i node hnode hroot
    change _ = _ + (deltas.getD i 0 + (ProtoArray.boostAt this.proposerBoost node.blockRoot - _))
    rw [hat hnode hroot, latestOwn, own, counted]
    ring
  obtain ⟨protoArray, hcall, harray, hboost⟩ := h.array.applyScoreChanges hlength hchange
  refine ⟨{ this.withVotes (movedOn this.votes) with protoArray, synced := true }, ?_,
    ⟨?_, fun root => ?_, ?_⟩, ?_, ?_⟩
  · rw [updateScores_run, hdeltas]
    dsimp only
    rw [hcall]
  · refine harray.congr fun node _ hroot => ?_
    change support (·.currentRoot) (movedOn this.votes) this.justifiedBalances node.blockRoot
      + ProtoArray.boostAt protoArray.previousProposerBoost node.blockRoot = _
    rw [hboost, support_congr hroot (fun v => rootOf_movedOn v)]
    rfl
  · change 0 ≤ ProtoArray.boostAt protoArray.previousProposerBoost root
    rw [hboost]
    exact boostAt_proposerBoost_nonneg root
  · intro score hsome
    change (this.withVotes (movedOn this.votes)).justifiedProposerBoostScore = some score at hsome
    change score = this.boostScore
    rw [withVotes] at hsome
    dsimp only at hsome
    split at hsome
    · rw [← Option.some.inj hsome, h.proposerBoostScore_eq]
    · exact h.score score hsome
  · intro v
    exact (rootOf_movedOn v).trans (rootOf_next_movedOn v).symm
  · rw [hboost]
    exact (proposerBoost_withVotes (movedOn this.votes)).symm

theorem Weighed.updateHead (h : this.Weighed) :
    (stateOf (updateHead.run this)).Weighed ∧
      (this.synced = false → (stateOf (updateHead.run this)).CountsAll) := by
  rw [updateHead_run]
  cases hsynced : this.synced with
  | true => exact ⟨weighed_cacheHead h, nofun⟩
  | false =>
    obtain ⟨that, hrun, hthat, hall⟩ := h.updateScores
    rw [if_neg Bool.false_ne_true, hrun]
    exact ⟨weighed_cacheHead hthat, fun _ => countsAll_cacheHead hall⟩

/-! ## The weights of the latest messages -/

/-- The call leaves the weights in step with the justified balances. -/
def KeepsWeights (this : ForkChoice) : Call → Prop
  | .onBlock block state preCachedData =>
    this.entryChecks block state preCachedData = .ok () →
      this.KeepsOnBlock block state preCachedData
  | .updateTime currentSlot => this.KeepsOnTick (max this.fcStore.currentSlot currentSlot)
  | .onAttestation _ | .updateHead | .prune _ | .setPruneThreshold _ => True

theorem Weighed.prune (h : this.Weighed) (finalizedRoot : RootHex) :
    (stateOf ((prune finalizedRoot).run this)).Weighed := by
  rw [prune_run]
  cases hcall : this.protoArray.maybePrune finalizedRoot with
  | error e => exact h
  | ok result =>
    obtain ⟨removed, protoArray⟩ := result
    obtain ⟨harray, hboost⟩ := h.array.maybePrune hcall
    exact h.of_array harray hboost

theorem stateOf_updateHead (this : ForkChoice) :
    stateOf (Call.updateHead.apply.run this) = stateOf (updateHead.run this) := by
  rw [Call.apply, EStateM.run_bind]
  cases updateHead.run this <;> rfl

theorem Weighed.apply (h : this.Weighed) {call : Call} (hkeeps : this.KeepsWeights call) :
    (stateOf (call.apply.run this)).Weighed := by
  cases call with
  | onBlock block state preCachedData => exact h.onBlock hkeeps
  | onAttestation attestation => exact h.onAttestation attestation
  | updateTime currentSlot => exact h.updateTime hkeeps
  | updateHead =>
    rw [stateOf_updateHead]
    exact h.updateHead.1
  | prune finalizedRoot =>
    have hpruned := h.prune finalizedRoot
    rw [Call.apply, EStateM.run_bind]
    cases hrun : (ForkChoice.prune finalizedRoot).run this <;> rw [hrun] at hpruned <;>
      exact hpruned
  | setPruneThreshold threshold =>
    have harray : ProtoArray.Weighs { this.protoArray with pruneThreshold := threshold } this.own :=
      h.array.of_nodes rfl rfl
    exact ⟨harray.congr fun _ _ _ => rfl, h.boost, h.score⟩

theorem Weighed.afterCalls (h : this.Weighed) {calls : List Call}
    (hcalls : ForallCalls KeepsWeights this calls) : (this.afterCalls calls).Weighed := by
  induction calls generalizing this with
  | nil => exact h
  | cons call calls ih => exact ih (h.apply hcalls.1) hcalls.2

theorem ForallCalls.of_append {P : ForkChoice → Call → Prop} {before after : List Call}
    (h : ForallCalls P this (before ++ after)) : ForallCalls P this before := by
  induction before generalizing this with
  | nil => trivial
  | cons call before ih => exact ⟨h.1, ih h.2⟩

end Main

/-! ## New balances for a counted vote -/

attribute [local instance] minimal

end Lodestar.ForkChoice

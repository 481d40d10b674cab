import Lodestar.Chain.ProcessBlock

/-!
# Blocks that are imported in part

A block that the fork choice has accepted stays known, whatever fails after it.
So a call of `processBlock` is all or nothing only if the rest of the import
goes through (`Finishes`) and the block was not known before.
-/

namespace Lodestar.Chain

open Lodestar.Base Lodestar.ForkChoice Lodestar.StateTransition

section

variable [Preset] {State : Type} [fns : BlockImportFns State]

/-! ## What the checks say -/

variable {tree : BlockTree} {forkChoice : ForkChoice} {currentSlot : Int} {block : BeaconBlock}

/-- The checks come as far as finding that the block is known. -/
def FindsKnown (forkChoice : ForkChoice) (currentSlot : Int) (block : BeaconBlock) : Prop :=
  block.slot = 0 ∨
    computeStartSlotAtEpoch forkChoice.fcStore.finalizedCheckpoint.epoch < block.slot ∧
      forkChoice.IsKnown block.parentRoot ∧ (block.slot : Int) ≤ currentSlot

/-- What the checks come to: a block whose parent is known and that is new, or an error that says
the block is known only if it is. -/
theorem verifyBlockSanityChecks_cases (currentSlot : Int) (block : BeaconBlock)
    (h : Rooted tree forkChoice) :
    (∃ parentBlock, verifyBlockSanityChecks forkChoice currentSlot block = .ok parentBlock ∧
      forkChoice.IsKnown block.parentRoot ∧ ¬ forkChoice.IsKnown block.hashTreeRoot) ∨
    ∃ type, verifyBlockSanityChecks forkChoice currentSlot block = .error (.blockError type) ∧
      (forkChoice.IsKnown block.hashTreeRoot →
        (type.isKnown = true ↔ FindsKnown forkChoice currentSlot block)) ∧
      (type = .ALREADY_KNOWN block.hashTreeRoot → forkChoice.IsKnown block.hashTreeRoot) := by
  obtain ⟨parentBlock, hparent, hparentKnown⟩ := h.getBlockHex block.parentRoot
  obtain ⟨answer, hanswer, hknown⟩ := h.hasBlockHex block.hashTreeRoot
  rw [verifyBlockSanityChecks, hparent, hanswer, FindsKnown, ← hknown, ← hparentKnown]
  by_cases hzero : block.slot = 0
  · rw [if_pos hzero]
    exact .inr ⟨_, rfl, fun _ => iff_of_true rfl (.inl hzero), fun h => by cases h⟩
  rw [if_neg hzero, or_iff_right hzero]
  dsimp only
  by_cases hfinalized :
      block.slot ≤ computeStartSlotAtEpoch forkChoice.fcStore.finalizedCheckpoint.epoch
  · rw [if_pos hfinalized]
    exact .inr ⟨_, rfl, fun _ => iff_of_false Bool.false_ne_true
      fun h => absurd h.1 (Nat.not_lt.mpr hfinalized), fun h => by cases h⟩
  rw [if_neg hfinalized]
  cases parentBlock with
  | none =>
    exact .inr ⟨_, rfl, fun _ => iff_of_false Bool.false_ne_true
      fun h => Bool.false_ne_true h.2.1, fun h => by cases h⟩
  | some parentBlock =>
    by_cases hfuture : currentSlot < block.slot
    · exact .inr ⟨.FUTURE_SLOT block.slot currentSlot, if_pos hfuture,
        fun _ => iff_of_false Bool.false_ne_true fun h => absurd h.2.2 (by omega),
        fun h => by cases h⟩
    · cases answer with
      | true =>
        exact .inr ⟨.ALREADY_KNOWN block.hashTreeRoot, if_neg hfuture,
          fun _ => iff_of_true rfl ⟨Nat.not_le.mp hfinalized, rfl, by omega⟩, fun _ => rfl⟩
      | false => exact .inl ⟨parentBlock, if_neg hfuture, rfl, Bool.false_ne_true⟩

/-! ## What is left of the fork choice -/

variable (env : Environment State) (opts : BlockProcessOpts)
  (job : PartiallyVerifiedBlock State)

abbrev SameForkChoice (chain chain' : ImportBlockModules State) : Prop :=
  chain'.forkChoice = chain.forkChoice

theorem sameForkChoice_getPreState (block : fns.Block) :
    Moves SameForkChoice (getPreState env block) := by
  intro chain
  change (stateOf ((getPreState env block) chain)).forkChoice = chain.forkChoice
  rw [getPreState]
  dsimp only
  split <;> rfl

theorem sameForkChoice_verifyBlock :
    Moves SameForkChoice (verifyBlock env opts job) := by
  have htrans : ∀ {a b c : ImportBlockModules State}, SameForkChoice a b → SameForkChoice b c →
      SameForkChoice a c := fun hab hbc => hbc.trans hab
  have hrefl : ∀ a : ImportBlockModules State, SameForkChoice a a := fun _ => rfl
  refine .get_bind fun chain => ?_
  refine Moves.bind (R := SameForkChoice) htrans (.ofExcept hrefl _) (fun _ => ?_) chain
  refine Moves.bind htrans (sameForkChoice_getPreState env _) fun preState => ?_
  refine Moves.bind htrans (.ofExcept hrefl _) fun postState => ?_
  refine .get_bind fun chain => ?_
  exact Moves.bind (R := SameForkChoice) htrans (.ofExcept hrefl _) (fun _ _ => rfl) chain

variable {env opts job} {chain chain' : ImportBlockModules State}

/-- What a block that is verified has passed, with its states. -/
structure Verified (env : Environment State) (job : PartiallyVerifiedBlock State)
    (chain : ImportBlockModules State) (postState : State) : Prop where
  checks : ∃ parentBlock, verifyBlockSanityChecks chain.forkChoice env.currentSlot
    job.message = .ok parentBlock
  transition : ∃ preState verifyProposer verifySignatures,
    (env.getPreState job.block chain.checkpointStateCache chain.stateCache).1 = .ok preState ∧
    fns.checkedTransition preState job.block verifyProposer verifySignatures = .ok postState
  stateRoot : job.message.stateRoot = fns.hashTreeRoot postState

theorem getPreState_ok {block : fns.Block} {preState : State}
    (h : (getPreState env block).run chain = .ok preState chain') :
    (env.getPreState block chain.checkpointStateCache chain.stateCache).1 = .ok preState := by
  change getPreState env block chain = _ at h
  rw [getPreState] at h
  dsimp only at h
  split at h
  · next hpreState =>
    cases h
    exact hpreState
  · cases h

theorem verifyBlock_ok {postState : State} {executionStatus : ExecutionStatus}
    (h : (verifyBlock env opts job).run chain = .ok (postState, executionStatus) chain') :
    Verified env job chain postState := by
  obtain ⟨c₁, t, hget, h⟩ := eq_ok_of_run_bind h
  cases hget
  obtain ⟨parentBlock, c₂, hparent, h⟩ := eq_ok_of_run_bind h
  obtain ⟨hchecks, rfl⟩ := eq_ok_of_run_ofExcept hparent
  obtain ⟨preState, c₃, hpreState, h⟩ := eq_ok_of_run_bind h
  obtain ⟨postState', c₄, hpostState, h⟩ := eq_ok_of_run_bind h
  obtain ⟨htransition, rfl⟩ := eq_ok_of_run_ofExcept hpostState
  obtain ⟨c₅, t, hget, h⟩ := eq_ok_of_run_bind h
  cases hget
  obtain ⟨status, c₆, hstatus, h⟩ := eq_ok_of_run_bind h
  cases h
  obtain ⟨hpost, -⟩ := eq_ok_of_run_ofExcept hstatus
  refine ⟨⟨parentBlock, hchecks⟩,
    ⟨preState, _, _, getPreState_ok hpreState, eq_ok_of_mapError htransition⟩, ?_⟩
  obtain ⟨_, _, hpost⟩ := eq_ok_of_bind hpost
  obtain ⟨_, _, hpost⟩ := eq_ok_of_bind hpost
  by_contra hroot
  rw [if_pos hroot] at hpost
  cases hpost

/-! ## Registering a block -/

theorem onForkChoice_run {α : Type} (x : ForkChoiceM α) (chain : ImportBlockModules State) :
    (onForkChoice x).run chain = match x.run chain.forkChoice with
      | .ok a forkChoice => .ok a { chain with forkChoice }
      | .error error forkChoice =>
        .error (.other (.forkChoice error)) { chain with forkChoice } := rfl

theorem registerBlock_cases (env : Environment State)
    (job : PartiallyVerifiedBlock State) (chain : ImportBlockModules State) (postState : State)
    (executionStatus : ExecutionStatus) :
    (∃ e, (registerBlock env job postState executionStatus).run chain = .error e chain) ∨
    ∃ data, (registerBlock env job postState executionStatus).run chain
      = (onForkChoice (onBlock job.message (fns.toBeaconState postState) (some data))).run
          chain := by
  rw [registerBlock, EStateM.run_bind, EStateM.run_get]
  simp only [EStateM.run_bind, run_ofExcept]
  cases importedData env chain job.message postState executionStatus with
  | error e => exact .inl ⟨e, rfl⟩
  | ok data => exact .inr ⟨data, rfl⟩

/-- A block stops before the fork choice is told of it, or what `onBlock` answers decides. -/
theorem verifyAndRegister_cases (env : Environment State) (opts : BlockProcessOpts)
    (job : PartiallyVerifiedBlock State) (chain : ImportBlockModules State) :
    (∃ e that, (verifyAndRegister env opts job).run chain = .error e that ∧
      that.forkChoice = chain.forkChoice) ∨
    ∃ (postState : State) (data : OnBlockPrecachedData) (that : ImportBlockModules State),
      Verified env job chain postState ∧
      (verifyAndRegister env opts job).run chain
        = match (onBlock job.message (fns.toBeaconState postState)
            (some data)).run chain.forkChoice with
          | .ok _ forkChoice =>
            .ok (postState, chain.forkChoice.fcStore.finalizedCheckpoint.epoch)
              { that with forkChoice }
          | .error e forkChoice => .error (.other (.forkChoice e)) { that with forkChoice } := by
  have hverify := sameForkChoice_verifyBlock env opts job chain
  rw [verifyAndRegister, EStateM.run_bind]
  cases hrun : (verifyBlock env opts job).run chain with
  | error e that =>
    rw [hrun] at hverify
    exact .inl ⟨e, that, rfl, hverify⟩
  | ok result that =>
    obtain ⟨postState, executionStatus⟩ := result
    rw [hrun] at hverify
    have hsame : that.forkChoice = chain.forkChoice := hverify
    dsimp only
    rw [EStateM.run_bind, EStateM.run_get]
    dsimp only
    rw [EStateM.run_bind]
    rcases registerBlock_cases env job that postState executionStatus with
      ⟨e, hregister⟩ | ⟨data, hregister⟩ <;> rw [hregister]
    · exact .inl ⟨e, that, rfl, hsame⟩
    · refine .inr ⟨postState, data, that, verifyBlock_ok hrun, ?_⟩
      rw [onForkChoice_run, hsame]
      cases (onBlock job.message (fns.toBeaconState postState)
        (some data)).run chain.forkChoice <;> rfl

/-- What is promised of a block whose parent is known: the transition of the state that is
regenerated for it gives a state at its slot, which follows the tree. -/
def FollowsChain (tree : BlockTree) (env : Environment State) (chain : ImportBlockModules State)
    (block : fns.Block) : Prop :=
  chain.forkChoice.IsKnown (fns.message block).parentRoot →
    ∀ (preState postState : State) (verifyProposer verifySignatures : Bool),
      (env.getPreState block chain.checkpointStateCache chain.stateCache).1 = .ok preState →
      fns.checkedTransition preState block verifyProposer verifySignatures = .ok postState →
        fns.slot postState = (fns.message block).slot ∧
          FollowsTree tree chain.forkChoice (fns.message block) (fns.toBeaconState postState)

/-- What a registered block leaves. -/
structure Registered (block : BeaconBlock) (forkChoice : ForkChoice) (postState : State) :
    Prop where
  known : forkChoice.IsKnown block.hashTreeRoot
  slot : fns.slot postState = block.slot
  stateRoot : block.stateRoot = fns.hashTreeRoot postState

theorem verifyAndRegister_keeps (opts : BlockProcessOpts) (h : Rooted tree chain.forkChoice)
    (hfollows : FollowsChain tree env chain job.block) :
    ∃ that, Rooted tree that.forkChoice ∧
      ((∃ e, (verifyAndRegister env opts job).run chain = .error e that ∧
          ∀ root, that.forkChoice.IsKnown root → chain.forkChoice.IsKnown root) ∨
        ∃ postState prevFinalizedEpoch,
          (verifyAndRegister env opts job).run chain = .ok (postState, prevFinalizedEpoch) that ∧
          ¬ chain.forkChoice.IsKnown job.message.hashTreeRoot ∧
          Registered job.message that.forkChoice postState) := by
  rcases verifyAndRegister_cases env opts job chain with
    ⟨e, that, hrun, hsame⟩ | ⟨postState, data, that, hverified, hrun⟩
  · exact ⟨that, hsame ▸ h, .inl ⟨e, hrun, fun root hroot => by rwa [← hsame]⟩⟩
  · obtain ⟨⟨parentBlock, hchecks⟩, ⟨preState, _, _, hpreState, htransition⟩, hroot⟩ := hverified
    obtain ⟨hparent, hfresh⟩ := (verifyBlockSanityChecks_cases env.currentSlot job.message h).elim
      (fun ⟨_, _, hnew⟩ => hnew) fun ⟨_, hfails, _⟩ => nomatch hchecks.symm.trans hfails
    obtain ⟨hslot, htree⟩ := hfollows hparent _ _ _ _ hpreState htransition
    have hrooted := h.onBlock htree (some data)
    cases honBlock : (onBlock job.message
        (fns.toBeaconState postState) (some data)).run chain.forkChoice with
    | error e forkChoice =>
      rw [honBlock] at hrun hrooted
      exact ⟨_, hrooted, .inl ⟨_, hrun, fun root => h.isKnown_of_onBlock_error htree honBlock⟩⟩
    | ok u forkChoice =>
      rw [honBlock] at hrun hrooted
      exact ⟨_, hrooted, .inr ⟨postState, _, hrun, hfresh,
        h.isKnown_of_onBlock htree honBlock, hslot, hroot⟩⟩

/-! ## The rest of the import -/

variable {postState : State} {this : ForkChoice}

theorem importAttestation_keeps (h : Rooted tree this) (postState : State) (currentEpoch : Nat)
    (attestation : fns.Attestation) :
    Rooted tree (importAttestation postState currentEpoch this attestation) ∧
      SameBlocks this (importAttestation postState currentEpoch this attestation) := by
  rw [importAttestation]
  cases fns.getIndexedAttestation postState attestation with
  | error e => exact ⟨h, rfl, rfl⟩
  | ok indexedAttestation =>
    dsimp only
    split
    · exact h.onAttestation _
    · exact ⟨h, rfl, rfl⟩

theorem importAttestations_run (h : Rooted tree this)
    (job : PartiallyVerifiedBlock State) (postState : State) :
    ∃ that, (importAttestations job postState).run this = .ok () that ∧
      Rooted tree that ∧ SameBlocks this that := by
  have hfold : ∀ (attestations : List fns.Attestation) (currentEpoch : Nat) (that : ForkChoice),
      Rooted tree that → SameBlocks this that →
      Rooted tree (attestations.foldl (importAttestation postState currentEpoch) that) ∧
        SameBlocks this (attestations.foldl (importAttestation postState currentEpoch) that) := by
    intro attestations currentEpoch
    induction attestations with
    | nil => exact fun that h hsame => ⟨h, hsame⟩
    | cons attestation attestations ih =>
      intro that h hsame
      obtain ⟨hnext, hstep⟩ := importAttestation_keeps h postState currentEpoch attestation
      exact ih _ hnext (hsame.trans hstep)
  obtain ⟨parentBlock, hparent, -⟩ := h.getBlockHex job.message.parentRoot
  rw [importAttestations, EStateM.run_bind, EStateM.run_get]
  dsimp only
  rw [run_ite]
  split
  · rw [EStateM.run_bind, run_ofExcept, hparent]
    exact ⟨_, rfl, hfold _ _ this h ⟨rfl, rfl⟩⟩
  · exact ⟨this, rfl, h, rfl, rfl⟩

/-- The head is found, and if it is another, the one before is still in the array. -/
def RefreshesHead (this : ForkChoice) : Prop :=
  ∃ newHead that, updateHead.run this = .ok newHead that ∧
    ∀ oldHead ∈ this.head, newHead.blockRoot ≠ oldHead.blockRoot →
      this.protoArray.hasBlock oldHead.blockRoot = true

omit [Preset] in
theorem reportHead_eq_ok_iff (h : Rooted tree this) {oldHead newHead : IProtoNode}
    (hnew : this.protoArray.hasBlock newHead.blockRoot = true) (prevFinalizedEpoch : Nat) :
    reportHead this oldHead newHead prevFinalizedEpoch = .ok () ↔
      (newHead.blockRoot ≠ oldHead.blockRoot →
        this.protoArray.hasBlock oldHead.blockRoot = true) := by
  obtain ⟨finalizedBlock, hfinalized⟩ := h.getFinalizedBlock
  have hdistance : (∃ distance, this.getCommonAncestorDistance oldHead.toIProtoBlock
      newHead.toIProtoBlock = .ok distance) ↔
      this.protoArray.hasBlock oldHead.blockRoot = true ∧
        this.protoArray.hasBlock newHead.blockRoot = true := h.getCommonAncestorDistance_isOk_iff
  rw [and_iff_left hnew] at hdistance
  rw [reportHead, hfinalized, ← hdistance]
  by_cases heq : newHead.blockRoot = oldHead.blockRoot
  · simp only [heq, ne_eq, not_true_eq_false, false_implies, iff_true, if_false, false_or]
    split <;> rfl
  · simp only [heq, ne_eq, not_false_eq_true, true_implies, if_true, true_or]
    cases this.getCommonAncestorDistance oldHead.toIProtoBlock newHead.toIProtoBlock with
    | error e => exact iff_of_false (fun h => by cases h) (fun h => by cases h.choose_spec)
    | ok distance => exact iff_of_true rfl ⟨distance, rfl⟩

theorem refreshHead_run (h : Rooted tree this) (prevFinalizedEpoch : Nat) :
    (RefreshesHead this ∧
        (refreshHead prevFinalizedEpoch).run this = .ok () (stateOf (updateHead.run this))) ∨
      (¬ RefreshesHead this ∧ ∃ e,
        (refreshHead prevFinalizedEpoch).run this = .error e (stateOf (updateHead.run this))) := by
  obtain ⟨oldHead, hold⟩ := Option.isSome_iff_exists.mp h.head
  have hget : this.getHead = .ok oldHead := by rw [getHead, hold]
  obtain ⟨hafter, hsame⟩ := h.updateHead
  rw [refreshHead, EStateM.run_bind, EStateM.run_get]
  dsimp only
  rw [EStateM.run_bind, run_ofExcept, hget, atState_ok]
  dsimp only
  rw [EStateM.run_bind, RefreshesHead]
  cases hrun : updateHead.run this with
  | error e that =>
    refine .inr ⟨?_, e, rfl⟩
    rintro ⟨_, _, heq, -⟩
    cases heq
  | ok newHead that =>
    rw [hrun, stateOf_ok] at hafter hsame
    have hreport : reportHead that oldHead newHead prevFinalizedEpoch = .ok () ↔ _ :=
      reportHead_eq_ok_iff hafter (h.hasBlock_of_updateHead hrun) prevFinalizedEpoch
    have hhas : that.protoArray.hasBlock oldHead.blockRoot
        = this.protoArray.hasBlock oldHead.blockRoot := by
      rw [ProtoArray.hasBlock, hsame.indices, ProtoArray.hasBlock]
    rw [hhas] at hreport
    dsimp only
    rw [EStateM.run_bind, EStateM.run_get]
    dsimp only
    rw [run_ofExcept, stateOf_ok, hold]
    cases hres : reportHead that oldHead newHead prevFinalizedEpoch with
    | ok u =>
      refine .inl ⟨⟨newHead, that, rfl, ?_⟩, rfl⟩
      rintro _ ⟨⟩
      exact hreport.mp hres
    | error e =>
      refine .inr ⟨?_, e, rfl⟩
      rintro ⟨_, _, heq, hkeeps⟩
      cases heq
      cases hres.symm.trans (hreport.mpr (hkeeps oldHead rfl))

theorem cacheCheckpointState_run (job : PartiallyVerifiedBlock State)
    (chain : ImportBlockModules State) (hslot : fns.slot postState = job.message.slot) :
    ∃ checkpointStateCache, (cacheCheckpointState job postState).run chain
      = .ok () { chain with checkpointStateCache } := by
  rw [cacheCheckpointState, run_ite]
  split_ifs with hstart
  · have hfirst : ¬ fns.slot postState % SLOTS_PER_EPOCH ≠ 0 := not_not.mpr (hslot ▸ hstart)
    rw [EStateM.run_bind, run_ofExcept, getCheckpointFromState, if_neg hfirst]
    exact ⟨_, rfl⟩
  · exact ⟨_, rfl⟩

theorem storeBlock_run (env : Environment State) (job : PartiallyVerifiedBlock State)
    (postState : State) (chain : ImportBlockModules State) :
    (storeBlock env job postState).run chain =
      match env.addBlock with
      | .ok _ => .ok () { chain with
          stateCache := chain.stateCache.add postState
          blockDb := chain.blockDb.set job.message.hashTreeRoot job.block }
      | .error message => .error (.other (.error message))
          { chain with stateCache := chain.stateCache.add postState } := by
  rw [storeBlock, EStateM.run_bind, EStateM.run_modify]
  dsimp only
  rw [EStateM.run_bind, run_ofExcept]
  cases env.addBlock <;> rfl

theorem onCheckpoint_run {head : IProtoNode} (hhead : chain.forkChoice.head = some head) :
    ∃ checkpointStateCache, (onCheckpoint : ImportM State Unit).run chain = .ok () { chain with
      checkpointStateCache, stateCache := chain.stateCache.prune head.stateRoot } := by
  rw [onCheckpoint, EStateM.run_bind, EStateM.run_get]
  dsimp only
  rw [EStateM.run_bind, run_ofExcept, getHead, hhead]
  exact ⟨_, rfl⟩

/-- The state of the block makes no room at a checkpoint. -/
def SparesState (job : PartiallyVerifiedBlock State) (stateCache : StateContextCache State)
    (head : IProtoNode) (stateRoot : RootHex) : Prop :=
  job.message.slot % SLOTS_PER_EPOCH = 0 → stateRoot ∉ stateCache.pruned head.stateRoot

theorem sendEvents_run (env : Environment State) (job : PartiallyVerifiedBlock State)
    (chain : ImportBlockModules State) {head : IProtoNode}
    (hhead : chain.forkChoice.head = some head) :
    (∃ chain', (sendEvents env job).run chain = .ok () chain' ∧
        env.emitBlock = .ok () ∧ env.emitPending = .ok () ∧
        chain'.forkChoice = chain.forkChoice ∧ chain'.blockDb = chain.blockDb ∧
        ∀ stateRoot, (chain.stateCache.get stateRoot).isSome →
          ((chain'.stateCache.get stateRoot).isSome ↔
            SparesState job chain.stateCache head stateRoot)) ∨
      ¬ (env.emitBlock = .ok () ∧ env.emitPending = .ok ()) ∧
        ∃ message chain', (sendEvents env job).run chain
          = .error (.other (.error message)) chain' ∧ chain'.forkChoice = chain.forkChoice := by
  obtain ⟨checkpointStateCache, hcheckpoint⟩ := onCheckpoint_run hhead
  rw [sendEvents, EStateM.run_bind, run_ofExcept]
  cases hblock : env.emitBlock with
  | error message => exact .inr ⟨(fun h => by cases h.1), message, chain, rfl, rfl⟩
  | ok u =>
    rw [ofCall, Except.mapError, atState_ok]
    dsimp only
    by_cases hstart : job.message.slot % SLOTS_PER_EPOCH = 0
    · rw [if_pos hstart, EStateM.run_bind, hcheckpoint]
      dsimp only
      rw [run_ofExcept]
      cases hpending : env.emitPending with
      | error message => exact .inr ⟨(fun h => by cases h.2), message, _, rfl, rfl⟩
      | ok u =>
        refine .inl ⟨_, rfl, rfl, rfl, rfl, rfl, fun stateRoot hstate => ?_⟩
        change ((chain.stateCache.prune head.stateRoot).get stateRoot).isSome ↔ _
        rw [StateContextCache.get_prune, SparesState]
        by_cases hmem : stateRoot ∈ chain.stateCache.pruned head.stateRoot
        · rw [if_pos hmem]
          exact iff_of_false Bool.false_ne_true fun h => h hstart hmem
        · rw [if_neg hmem]
          exact iff_of_true hstate fun _ => hmem
    · rw [if_neg hstart, run_ofExcept]
      cases hpending : env.emitPending with
      | error message => exact .inr ⟨(fun h => by cases h.2), message, _, rfl, rfl⟩
      | ok u =>
        exact .inl ⟨_, rfl, rfl, rfl, rfl, rfl, fun stateRoot hstate =>
          iff_of_true hstate fun h => absurd h hstart⟩

/-- The fork choice once it has been told the attestations of the block. -/
def attested (job : PartiallyVerifiedBlock State) (postState : State)
    (this : ForkChoice) : ForkChoice :=
  stateOf ((importAttestations job postState).run this)

/-- The fork choice once the head has been looked for. -/
def refreshed (job : PartiallyVerifiedBlock State) (postState : State)
    (this : ForkChoice) : ForkChoice :=
  stateOf (updateHead.run (attested job postState this))

/-- No step fails once the block is registered: a head is found, the block is written, and no
listener throws. -/
structure Finishes (env : Environment State) (job : PartiallyVerifiedBlock State)
    (postState : State) (chain : ImportBlockModules State) : Prop where
  head : RefreshesHead (attested job postState chain.forkChoice)
  addBlock : env.addBlock = .ok ()
  emitBlock : env.emitBlock = .ok ()
  emitPending : env.emitPending = .ok ()

theorem finishImport_run (env : Environment State) {block : PartiallyVerifiedBlock State}
    (h : Rooted tree chain.forkChoice) (hslot : fns.slot postState = block.message.slot)
    (prevFinalizedEpoch : Nat) :
    ∃ chain', Rooted tree chain'.forkChoice ∧ SameBlocks chain.forkChoice chain'.forkChoice ∧
      ((¬ Finishes env block postState chain ∧ ∃ error,
          (finishImport env block postState prevFinalizedEpoch).run chain
            = .error (.other error) chain') ∨
        (Finishes env block postState chain ∧
          (finishImport env block postState prevFinalizedEpoch).run chain = .ok () chain' ∧
          chain'.blockDb.get block.message.hashTreeRoot = some block.block ∧
          chain'.forkChoice = refreshed block postState chain.forkChoice ∧
          ∃ head, chain'.forkChoice.head = some head ∧
            ((chain'.stateCache.get (fns.hashTreeRoot postState)).isSome ↔
              SparesState block (chain.stateCache.add postState) head
                (fns.hashTreeRoot postState)))) := by
  obtain ⟨that, hattested, hthat, hsame⟩ := importAttestations_run h block postState
  obtain rfl : attested block postState chain.forkChoice = that := by
    rw [attested, hattested, stateOf_ok]
  obtain ⟨checkpointStateCache, hcheckpoint⟩ := cacheCheckpointState_run block
    { chain with forkChoice := attested block postState chain.forkChoice } hslot
  obtain ⟨hhead, hupdated⟩ := hthat.updateHead
  have hkept := hsame.trans hupdated
  rw [finishImport, EStateM.run_bind, onForkChoice_run, hattested]
  dsimp only
  rw [EStateM.run_bind, hcheckpoint]
  dsimp only
  rw [EStateM.run_bind, onForkChoice_run]
  dsimp only
  rcases refreshHead_run hthat prevFinalizedEpoch with
    ⟨hrefreshes, hrefresh⟩ | ⟨hnot, e, hrefresh⟩ <;> rw [hrefresh]
  · dsimp only
    rw [EStateM.run_bind, storeBlock_run]
    cases hadd : env.addBlock with
    | error message =>
      refine ⟨_, hhead, hkept, .inl ⟨fun hall => ?_, .error message, rfl⟩⟩
      cases hadd.symm.trans hall.addBlock
    | ok u =>
      dsimp only
      obtain ⟨head, hnew⟩ := Option.isSome_iff_exists.mp hhead.head
      have hevents := sendEvents_run env block { chain with
        forkChoice := refreshed block postState chain.forkChoice
        checkpointStateCache
        stateCache := chain.stateCache.add postState
        blockDb := chain.blockDb.set block.message.hashTreeRoot block.block } hnew
      rcases hevents with ⟨chain', hsend, hemit, hpending, hfork, hdb, hstates⟩ |
        ⟨hnot, message, chain', hsend, hfork⟩
      · refine ⟨chain', hfork ▸ hhead, hfork ▸ hkept, .inr ⟨⟨hrefreshes, hadd, hemit, hpending⟩,
          hsend, ?_, hfork, head, hfork ▸ hnew, hstates _ ?_⟩⟩
        · rw [hdb]
          exact OrderedMap.get_set_self
        · exact StateContextCache.isSome_get_add
      · exact ⟨chain', hfork ▸ hhead, hfork ▸ hkept,
          .inl ⟨fun hall => hnot ⟨hall.emitBlock, hall.emitPending⟩, .error message, hsend⟩⟩
  · exact ⟨_, hhead, hkept, .inl ⟨fun hall => hnot hall.head, .forkChoice e, rfl⟩⟩

/-! ## Processing a block -/

theorem processBlock_of_ok {u : Unit}
    (h : (verifyAndImport env opts job).run chain = .ok u chain') :
    (processBlock env opts job).run chain = .ok .imported chain' := by
  change processBlock env opts job chain = _
  rw [processBlock, h]

theorem processBlock_of_error {error : Thrown}
    (h : (verifyAndImport env opts job).run chain = .error error chain') :
    (processBlock env opts job).run chain =
      if job.ignoreIfKnown && (getBlockError error).isKnown
      then .ok .ignored chain'
      else .error (getBlockError error) chain' := by
  change processBlock env opts job chain = _
  rw [processBlock, h]

theorem verifyAndImport_of_ok {prevFinalizedEpoch : Nat}
    (h : (verifyAndRegister env opts job).run chain = .ok (postState, prevFinalizedEpoch) chain') :
    (verifyAndImport env opts job).run chain
      = (finishImport env job postState prevFinalizedEpoch).run chain' := by
  rw [verifyAndImport, EStateM.run_bind, h]

theorem verifyAndImport_of_error {error : Thrown}
    (h : (verifyAndRegister env opts job).run chain = .error error chain') :
    (verifyAndImport env opts job).run chain = .error error chain' := by
  rw [verifyAndImport, EStateM.run_bind, h]

theorem stateOf_processBlock (env : Environment State) (opts : BlockProcessOpts)
    (block : PartiallyVerifiedBlock State) (chain : ImportBlockModules State) :
    stateOf ((processBlock env opts block).run chain)
      = stateOf ((verifyAndImport env opts block).run chain) := by
  cases hrun : (verifyAndImport env opts block).run chain with
  | ok u chain' =>
    rw [processBlock_of_ok hrun]
    rfl
  | error error chain' =>
    rw [processBlock_of_error hrun]
    split <;> rfl

theorem rooted_processBlock (h : Rooted tree chain.forkChoice)
    (hfollows : FollowsChain tree env chain job.block) :
    Rooted tree (stateOf ((processBlock env opts job).run chain)).forkChoice := by
  rw [stateOf_processBlock]
  obtain ⟨that, hthat, ⟨e, hrun, -⟩ | ⟨postState, prevFinalizedEpoch, hrun, -, hregistered⟩⟩ :=
    verifyAndRegister_keeps opts h hfollows
  · rw [verifyAndImport_of_error hrun]
    exact hthat
  · rw [verifyAndImport_of_ok hrun]
    obtain ⟨chain', hrooted, -, ⟨-, error, hfinish⟩ | ⟨-, hfinish, -⟩⟩ :=
      finishImport_run env hthat hregistered.slot prevFinalizedEpoch <;> rw [hfinish] <;>
      exact hrooted

/-! ## Runs of the chain -/

namespace ImportBlockModules

/-- What happens to the chain: a block is processed, the fork choice is told something else, or the
caches or the database change. -/
inductive Step (tree : BlockTree) : ImportBlockModules State → ImportBlockModules State → Prop
  | processBlock (env : Environment State) (opts : BlockProcessOpts)
      (job : PartiallyVerifiedBlock State) {chain : ImportBlockModules State}
      (hfollows : FollowsChain tree env chain job.block) :
      Step tree chain (stateOf ((processBlock env opts job).run chain))
  | forkChoice (call : Call) {chain : ImportBlockModules State}
      (hfollows : call.Follows tree chain.forkChoice) :
      Step tree chain { chain with forkChoice := stateOf (call.apply.run chain.forkChoice) }
  | stored {chain chain' : ImportBlockModules State} (h : chain'.forkChoice = chain.forkChoice) :
      Step tree chain chain'

/-- The chain was started at a block of the tree. -/
def Reachable (tree : BlockTree) (chain : ImportBlockModules State) : Prop :=
  ∃ (start : ImportBlockModules State) (config : ChainConfig) (currentSlot : Nat) (anchor : Anchor)
    (proposerBoostEnabled : Bool),
    initializeForkChoice config currentSlot anchor proposerBoostEnabled = .ok start.forkChoice ∧
    tree.header anchor.checkpoint.root = some anchor.blockHeader ∧
    Relation.ReflTransGen (Step tree) start chain

theorem Reachable.rooted (h : chain.Reachable tree) : Rooted tree chain.forkChoice := by
  obtain ⟨start, config, currentSlot, anchor, proposerBoostEnabled, hinit, hanchor, hrun⟩ := h
  induction hrun with
  | refl => exact rooted_of_anchor hinit hanchor
  | tail _ hstep ih =>
    cases hstep with
    | processBlock env opts block hfollows => exact rooted_processBlock ih hfollows
    | forkChoice call hfollows => exact ih.apply hfollows
    | stored h => exact h ▸ ih

end ImportBlockModules

/-! ## All or nothing -/

/-- A call that rejects leaves a block that the fork choice does not have, so that it can be tried
again; one that imports leaves the block in the fork choice and in the database, and its state in
the cache. -/
structure AllOrNothing (env : Environment State) (opts : BlockProcessOpts)
    (job : PartiallyVerifiedBlock State) (chain : ImportBlockModules State) : Prop where
  rejected : ∀ err chain', (processBlock env opts job).run chain = .error err chain' →
    chain'.forkChoice.hasBlockHex job.message.hashTreeRoot = .ok false ∧
    ∀ currentSlot, verifyBlockSanityChecks chain'.forkChoice currentSlot job.message
      ≠ .error (.blockError (.ALREADY_KNOWN job.message.hashTreeRoot))
  imported : ∀ chain', (processBlock env opts job).run chain = .ok .imported chain' →
    chain'.forkChoice.hasBlockHex job.message.hashTreeRoot = .ok true ∧
    chain'.blockDb.get job.message.hashTreeRoot = some job.block ∧
    ∃ state, chain'.stateCache.get job.message.stateRoot = some state ∧
      fns.hashTreeRoot state = job.message.stateRoot

/-- Nothing fails after the block has been registered, and its state stays in the cache. -/
structure Completes (env : Environment State) (job : PartiallyVerifiedBlock State)
    (postState : State) (chain : ImportBlockModules State) : Prop where
  finishes : Finishes env job postState chain
  spared : ∀ head ∈ (refreshed job postState chain.forkChoice).head,
    SparesState job (chain.stateCache.add postState) head (fns.hashTreeRoot postState)

omit [Preset] in
theorem hasBlockHex_eq_true_iff (h : Rooted tree this) {root : RootHex} :
    this.hasBlockHex root = .ok true ↔ this.IsKnown root := by
  obtain ⟨answer, hanswer, hiff⟩ := h.hasBlockHex root
  rw [hanswer, ← hiff, Except.ok.injEq]

omit [Preset] in
theorem hasBlockHex_eq_false_iff (h : Rooted tree this) {root : RootHex} :
    this.hasBlockHex root = .ok false ↔ ¬ this.IsKnown root := by
  obtain ⟨answer, hanswer, hiff⟩ := h.hasBlockHex root
  rw [hanswer, ← hiff, Except.ok.injEq, Bool.not_eq_true]

theorem verifyAndRegister_of_isKnown (env : Environment State) (opts : BlockProcessOpts)
    (h : Rooted tree chain.forkChoice)
    (hknown : chain.forkChoice.IsKnown job.message.hashTreeRoot) :
    ∃ type, (verifyAndRegister env opts job).run chain = .error (.blockError type) chain ∧
      (type.isKnown = true ↔ FindsKnown chain.forkChoice env.currentSlot job.message) := by
  obtain ⟨_, _, -, hnew⟩ | ⟨type, hchecks, hiff, -⟩ :=
    verifyBlockSanityChecks_cases env.currentSlot job.message h
  · exact absurd hknown hnew
  refine ⟨type, ?_, hiff hknown⟩
  rw [verifyAndRegister, EStateM.run_bind, verifyBlock, EStateM.run_bind, EStateM.run_get]
  dsimp only
  rw [EStateM.run_bind, run_ofExcept, hchecks]
  rfl

theorem allOrNothing_iff_of_error {e : Thrown} (h : Rooted tree chain'.forkChoice)
    (hrun : (verifyAndImport env opts job).run chain = .error e chain') :
    AllOrNothing env opts job chain ↔
      (chain'.forkChoice.IsKnown job.message.hashTreeRoot →
        job.ignoreIfKnown = true ∧ (getBlockError e).isKnown = true) := by
  have hprocess := processBlock_of_error hrun
  constructor
  · intro hall hknown
    by_contra hnot
    rw [if_neg (by rwa [Bool.and_eq_true])] at hprocess
    have hrejected := (hall.rejected _ _ hprocess).1
    exact (hasBlockHex_eq_false_iff h).mp hrejected hknown
  · intro hignored
    refine ⟨fun err that hrejects => ?_, fun that himports => ?_⟩
    · rw [hprocess] at hrejects
      split at hrejects
      · cases hrejects
      · next hnot =>
        cases hrejects
        rw [Bool.and_eq_true] at hnot
        have hnew := fun hknown => hnot (hignored hknown)
        refine ⟨(hasBlockHex_eq_false_iff h).mpr hnew, fun currentSlot halready => ?_⟩
        obtain ⟨_, hok, -⟩ | ⟨type, hfails, -, hsaid⟩ :=
          verifyBlockSanityChecks_cases currentSlot job.message h
        · cases halready.symm.trans hok
        · cases halready.symm.trans hfails
          exact hnew (hsaid rfl)
    · rw [hprocess] at himports
      split at himports <;> cases himports

theorem allOrNothing_iff_of_registered {prevFinalizedEpoch : Nat}
    (h : Rooted tree chain'.forkChoice)
    (hrun : (verifyAndRegister env opts job).run chain = .ok (postState, prevFinalizedEpoch) chain')
    (hregistered : Registered job.message chain'.forkChoice postState) :
    AllOrNothing env opts job chain ↔ Completes env job postState chain' := by
  obtain ⟨that, hthat, hsame, ⟨hnot, error, hfinish⟩ |
    ⟨hfinishes, hfinish, hblock, hrefreshed, head, hhead, hstate⟩⟩ :=
    finishImport_run env h hregistered.slot prevFinalizedEpoch
  · -- it rejects, and the block is known
    have hknown := hregistered.known.of_sameBlocks h hthat hsame
    refine iff_of_false (fun hall => ?_) fun hcompletes => hnot hcompletes.finishes
    have hignored := (allOrNothing_iff_of_error hthat
      ((verifyAndImport_of_ok hrun).trans hfinish)).mp hall hknown
    cases hignored.2
  · have hprocess := processBlock_of_ok ((verifyAndImport_of_ok hrun).trans hfinish)
    have hknown := hregistered.known.of_sameBlocks h hthat hsame
    have hspared : (that.stateCache.get (fns.hashTreeRoot postState)).isSome ↔
        Completes env job postState chain' := by
      rw [hstate]
      constructor
      · intro hspared
        refine ⟨hfinishes, fun head' hhead' => ?_⟩
        rw [← hrefreshed] at hhead'
        cases hhead.symm.trans hhead'
        exact hspared
      · rintro ⟨-, hspared⟩
        rw [← hrefreshed] at hspared
        exact hspared head hhead
    rw [← hspared]
    constructor
    · intro hall
      obtain ⟨-, -, state, hget, -⟩ := hall.imported _ hprocess
      rw [← hregistered.stateRoot, hget]
      rfl
    · intro hsome
      obtain ⟨state, hget⟩ := Option.isSome_iff_exists.mp hsome
      refine ⟨fun err that' hrejects => ?_, fun that' himports => ?_⟩
      · rw [hprocess] at hrejects
        cases hrejects
      · rw [hprocess] at himports
        cases himports
        refine ⟨(hasBlockHex_eq_true_iff hthat).mpr hknown, hblock, state, ?_, ?_⟩
        · rw [hregistered.stateRoot, hget]
        · rw [hregistered.stateRoot]
          exact StateContextCache.hashTreeRoot_of_get hget

/-- A call is all or nothing unless it refuses the block for being known, or a step fails after the
block has been registered. -/
theorem allOrNothing_iff (hreachable : chain.Reachable tree)
    (hfollows : FollowsChain tree env chain job.block) :
    AllOrNothing env opts job chain ↔
      (chain.forkChoice.hasBlockHex job.message.hashTreeRoot = .ok true →
        job.ignoreIfKnown = true ∧
          FindsKnown chain.forkChoice env.currentSlot job.message) ∧
      ∀ postState prevFinalizedEpoch chain',
        (verifyAndRegister env opts job).run chain = .ok (postState, prevFinalizedEpoch) chain' →
        Completes env job postState chain' := by
  have h := hreachable.rooted
  rw [hasBlockHex_eq_true_iff h]
  by_cases hknown : chain.forkChoice.IsKnown job.message.hashTreeRoot
  · obtain ⟨type, hrun, hiff⟩ := verifyAndRegister_of_isKnown env opts h hknown
    rw [allOrNothing_iff_of_error h (verifyAndImport_of_error hrun), getBlockError, hiff]
    refine (and_iff_left ?_).symm
    intro postState prevFinalizedEpoch chain' hok
    cases hrun.symm.trans hok
  · rw [show (chain.forkChoice.IsKnown _ → _) ↔ True from iff_of_true hknown.elim trivial, true_and]
    obtain ⟨that, hthat, ⟨e, hrun, hkeeps⟩ | ⟨postState, prev, hrun, -, hregistered⟩⟩ :=
      verifyAndRegister_keeps opts h hfollows
    · rw [allOrNothing_iff_of_error hthat (verifyAndImport_of_error hrun)]
      refine iff_of_true (fun hafter => absurd (hkeeps _ hafter) hknown) ?_
      intro postState prevFinalizedEpoch chain' hok
      cases hrun.symm.trans hok
    · rw [allOrNothing_iff_of_registered hthat hrun hregistered]
      constructor
      · intro hcompletes postState' prev' chain' hok
        cases hrun.symm.trans hok
        exact hcompletes
      · exact fun hall => hall _ _ _ hrun

end

/-! ## A block that is not written -/

attribute [local instance] minimal

/-- States that are their slots, with the genesis block for their checkpoints. -/
@[reducible] def slotImportFns : BlockImportFns Nat where
  slot state := state
  hashTreeRoot state := BitVec.ofNat 256 state
  latestBlockRoot _ := 0xaa
  processSlot state := .ok (state + 1)
  slot_processSlot h := (Except.ok.inj h).symm
  Block := BeaconBlock
  blockSlot block := block.slot
  processBlock _ block := .ok block.slot
  toBeaconState state := plainState state ⟨0, 0xaa⟩ ⟨0, 0xaa⟩
  genesisTime _ := 0
  getEffectiveBalanceIncrementsZeroInactive _ := [1]
  message block := block
  Attestation := IndexedAttestation
  attestations _ := []
  getIndexedAttestation _ attestation := .ok attestation
  checkedTransition _ block _ _ := .ok block.slot
  SignatureSet := Unit
  getAllBlockSignatureSets _ _ := .ok []
  getAllBlockSignatureSetsExceptProposer _ _ := .ok []

attribute [local instance] slotImportFns

/-- The block of slot 1, a child of the genesis block. -/
def firstBlock : PartiallyVerifiedBlock Nat where
  block := { plainBlock 1 1 0xaa with stateRoot := 1 }
  skipImportingAttestations := false
  ignoreIfKnown := true
  validProposerSignature := false
  validSignatures := false

def firstHeaders : List BeaconBlockHeader := [⟨0, 0, 0, 0, 0xaa⟩, ⟨1, 0, 0xaa, 1, 1⟩]

/-- The root of a header is that of its body. -/
def firstTree : BlockTree where
  header root := firstHeaders.find? (·.bodyRoot = root)
  slot_lt := by
    have hslots : ∀ header ∈ firstHeaders, ∀ parent ∈ firstHeaders,
        parent.bodyRoot = header.parentRoot → parent.slot < header.slot := by decide
    intro root header parent hheader hparent
    exact hslots header (List.mem_of_find?_eq_some hheader) parent
      (List.mem_of_find?_eq_some hparent) (by simpa using List.find?_some hparent)

def firstAnchor : Anchor := { genesisAnchor with blockHeader := ⟨0, 0, 0, 0, 0xaa⟩ }

def firstChain : ImportBlockModules Nat where
  forkChoice := okOr (genesisChoice false)
    (initializeForkChoice chainConfigMinimal 1 firstAnchor false)
  checkpointStateCache := ⟨.empty, .empty⟩
  stateCache := ⟨96, .empty, fun _ h => absurd h List.not_mem_nil⟩
  blockDb := .empty

/-- In slot 1, with a database that is open or not. -/
def firstEnvironment (isOpen : Bool) : Environment Nat where
  currentSlot := 1
  now := 11000
  getPreState _ checkpointStateCache stateCache := (.ok 0, checkpointStateCache, stateCache)
  verifySignatureSets _ := .ok true
  notifyNewPayload _ := .ok .SYNCING
  getPowBlock := .ok fun _ => none
  addBlock := if isOpen then .ok () else .error "Database is not open"
  emitBlock := .ok ()
  emitPending := .ok ()

def blockProcessOpts : BlockProcessOpts where
  disableBlsBatchVerify := false
  safeSlotsToImportOptimistically := 128

theorem firstChain_reachable : firstChain.Reachable firstTree := by
  have hinit : initializeForkChoice chainConfigMinimal 1 firstAnchor false
      = .ok firstChain.forkChoice := eq_ok_okOr (genesisChoice false) (by decide +kernel)
  exact ⟨firstChain, chainConfigMinimal, 1, firstAnchor, false, hinit, rfl, .refl⟩

theorem firstChain_follows (isOpen : Bool) :
    FollowsChain firstTree (firstEnvironment isOpen) firstChain firstBlock.block := by
  rintro - preState postState _ _ hpreState htransition
  cases htransition
  refine ⟨rfl, ⟨_, rfl, rfl, rfl⟩, ?_⟩
  change OnChain firstChain.forkChoice firstBlock.block (plainState 1 ⟨0, 0xaa⟩ ⟨0, 0xaa⟩)
  decide +kernel

/-- The modules once the block is registered. -/
def registeredChain (isOpen : Bool) : ImportBlockModules Nat :=
  stateOf ((verifyAndRegister (firstEnvironment isOpen) blockProcessOpts firstBlock).run firstChain)

theorem firstChain_registers (isOpen : Bool) : ∃ postState prevFinalizedEpoch,
    (verifyAndRegister (firstEnvironment isOpen) blockProcessOpts firstBlock).run firstChain
      = .ok (postState, prevFinalizedEpoch) (registeredChain isOpen) := by
  have hthrows : ∀ isOpen : Bool, errorOf ((verifyAndRegister (firstEnvironment isOpen)
      blockProcessOpts firstBlock).run firstChain) = none := by decide +kernel
  obtain ⟨⟨postState, prevFinalizedEpoch⟩, hrun⟩ := exists_ok_of_errorOf (hthrows isOpen)
  exact ⟨postState, prevFinalizedEpoch, hrun⟩

/-- The database rejects the block, and it stays known. -/
theorem firstChain_not_allOrNothing :
    firstChain.Reachable firstTree ∧
      FollowsChain firstTree (firstEnvironment false) firstChain firstBlock.block ∧
      ¬ AllOrNothing (firstEnvironment false) blockProcessOpts firstBlock firstChain := by
  refine ⟨firstChain_reachable, firstChain_follows false, ?_⟩
  obtain ⟨postState, prevFinalizedEpoch, hrun⟩ := firstChain_registers false
  obtain ⟨that, hthat, ⟨e, hthrows, -⟩ | ⟨postState', prev', hregisters, -, hregistered⟩⟩ :=
    verifyAndRegister_keeps blockProcessOpts firstChain_reachable.rooted (firstChain_follows false)
  · cases hrun.symm.trans hthrows
  · rw [allOrNothing_iff_of_registered hthat hregisters hregistered]
    intro hcompletes
    cases hcompletes.finishes.addBlock

/-- With an open database. -/
theorem firstChain_allOrNothing :
    AllOrNothing (firstEnvironment true) blockProcessOpts firstBlock firstChain := by
  refine (allOrNothing_iff firstChain_reachable (firstChain_follows true)).mpr ⟨?_, ?_⟩
  · have hnew : firstChain.forkChoice.hasBlockHex 1 = .ok false := by decide +kernel
    intro hknown
    cases hnew.symm.trans hknown
  · intro postState prevFinalizedEpoch chain' hrun
    obtain ⟨_, _, hregisters⟩ := firstChain_registers true
    cases hrun.symm.trans hregisters
    refine ⟨⟨?_, rfl, rfl, rfl⟩, fun _ _ hstart => ?_⟩
    · change RefreshesHead (registeredChain true).forkChoice
      have hthrows : errorOf (updateHead.run (registeredChain true).forkChoice) = none := by
        decide +kernel
      obtain ⟨newHead, hupdate⟩ := exists_ok_of_errorOf hthrows
      have hkept : ∀ oldHead ∈ (registeredChain true).forkChoice.head,
          (registeredChain true).forkChoice.protoArray.hasBlock oldHead.blockRoot = true := by
        decide +kernel
      exact ⟨newHead, _, hupdate, fun oldHead hold _ => hkept oldHead hold⟩
    · exact absurd hstart (by decide)

end Lodestar.Chain

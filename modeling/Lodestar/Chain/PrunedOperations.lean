import Lodestar.Chain.OpPool
import Lodestar.Chain.PackedOperations
import Lodestar.StateTransition.Descendants

/-!
# What pruning drops

`pruneAll` drops the slashings of validators that have exited by the finalized
epoch, but they may be slashed until they can withdraw; and it drops the exits
that name an epoch up to the finalized one, whether or not their validators have
left.
-/

namespace Lodestar.Chain.OpPool

open Lodestar.Base Lodestar.StateTransition

section

variable [Preset]

/-! ## The finalized state -/

/-- `finalized` is the state of the finalized checkpoint of `headState`. -/
structure Finalized (bls : Signatures) (headState finalized : KeyedBeaconState) : Prop where
  descends : DescendsFrom bls finalized headState
  epoch_eq : computeEpochAtSlot finalized.slot = headState.finalizedCheckpoint.epoch
  inv : EpochInv finalized.toCachedBeaconState
  activated : ∀ validator ∈ finalized.validators, validator.activationEpoch ≤ validator.exitEpoch

/-- The validator has exited by the finalized epoch. -/
def ExitedBy (headState : KeyedBeaconState) (index : Nat) : Prop :=
  ∃ validator ∈ headState.validators[index]?,
    validator.exitEpoch ≤ (headState.finalizedCheckpoint.epoch : WithTop Nat)

instance (headState : KeyedBeaconState) : DecidablePred (ExitedBy headState) :=
  fun _ => inferInstanceAs (Decidable (∃ _ ∈ _, _))

/-- The validator is slashed, or may withdraw. -/
def Expired (state : KeyedBeaconState) (index : Nat) : Prop :=
  ∃ validator ∈ state.validators[index]?, validator.slashed = true ∨
    validator.withdrawableEpoch ≤ (computeEpochAtSlot state.slot : WithTop Nat)

instance (state : KeyedBeaconState) : DecidablePred (Expired state) :=
  fun _ => inferInstanceAs (Decidable (∃ _ ∈ _, _))

/-- The exit of the validator has been initiated. -/
def ExitInitiated (state : KeyedBeaconState) (index : Nat) : Prop :=
  ∃ validator ∈ state.validators[index]?, validator.exitEpoch ≠ FAR_FUTURE_EPOCH

instance (state : KeyedBeaconState) : DecidablePred (ExitInitiated state) :=
  fun _ => inferInstanceAs (Decidable (∃ _ ∈ _, _))

/-! ## What a prune keeps and drops -/

/-- The pool after `pruneAll`, whether it has thrown or not. -/
def pruned (this : OpPool) (headState : KeyedBeaconState) : OpPool :=
  stateOf ((pruneAll headState).run this)

/-- What is dropped is not processable on any state that descends from the finalized one, the head
among them: no slashable validator remains in a slashing, and the exits have been initiated. -/
structure KeepsIncludable (bls : Signatures) (this : OpPool)
    (headState finalized : KeyedBeaconState) : Prop where
  attesterSlashings : ∀ e ∈ this.attesterSlashings.entries,
    e ∉ (this.pruned headState).attesterSlashings.entries →
    ∀ state, DescendsFrom bls finalized state →
      (∀ index ∈ e.2.intersectingIndices, slashable state index = false) ∧
      ∀ verifySignatures fork state',
        processAttesterSlashing bls verifySignatures fork state e.2.attesterSlashing ≠ .ok state'
  proposerSlashings : ∀ e ∈ this.proposerSlashings.entries,
    e ∉ (this.pruned headState).proposerSlashings.entries →
    ∀ state, DescendsFrom bls finalized state →
      slashable state e.2.signedHeader1.message.proposerIndex = false ∧
      ∀ verifySignatures fork state',
        processProposerSlashing bls verifySignatures fork state e.2 ≠ .ok state'
  voluntaryExits : ∀ e ∈ this.voluntaryExits.entries,
    e ∉ (this.pruned headState).voluntaryExits.entries →
    ExitInitiated finalized e.2.message.validatorIndex ∧
      ∀ state, DescendsFrom bls finalized state → ∀ verifySignature state',
        processVoluntaryExitAllForks bls verifySignature state e.2 ≠ .ok state'

/-- No read of the loop over the attester slashings goes past the registry. -/
def AttesterSlashingsRead (this : OpPool) (headState : KeyedBeaconState) : Prop :=
  ∀ e ∈ this.attesterSlashings.entries, (haveExited headState e.2.intersectingIndices).isOk = true

/-- No read of the loop over the proposer slashings goes past the registry. -/
def ProposerSlashingsRead (this : OpPool) (headState : KeyedBeaconState) : Prop :=
  ∀ e ∈ this.proposerSlashings.entries,
    (hasExited headState e.2.signedHeader1.message.proposerIndex).isOk = true

/-- Of the slashings that the loops come to, those of validators that have exited by the finalized
epoch are of validators slashed or withdrawable in the finalized state; and the exits up to the
finalized epoch, if the last loop is come to, are initiated in it. -/
structure DropsExpired (this : OpPool) (headState finalized : KeyedBeaconState) : Prop where
  attesterSlashings : ∀ e ∈ checkedEntries (fun e => haveExited headState e.2.intersectingIndices)
      this.attesterSlashings.entries,
    (∀ index ∈ e.2.intersectingIndices, ExitedBy headState index) →
      ∀ index ∈ e.2.intersectingIndices, Expired finalized index
  proposerSlashings : this.AttesterSlashingsRead headState →
    ∀ e ∈ checkedEntries (fun e => hasExited headState e.2.signedHeader1.message.proposerIndex)
      this.proposerSlashings.entries,
    ExitedBy headState e.2.signedHeader1.message.proposerIndex →
      Expired finalized e.2.signedHeader1.message.proposerIndex
  voluntaryExits : this.AttesterSlashingsRead headState → this.ProposerSlashingsRead headState →
    ∀ e ∈ this.voluntaryExits.entries,
      e.2.message.epoch ≤ headState.finalizedCheckpoint.epoch →
        ExitInitiated finalized e.2.message.validatorIndex

/-! ## The checks -/

variable {bls : Signatures} {this : OpPool} {headState finalized state : KeyedBeaconState}
  {i : Nat}

theorem hasExited_eq_true_iff : hasExited headState i = .ok true ↔ ExitedBy headState i := by
  unfold hasExited getValidator ExitedBy
  cases headState.validators[i]? with
  | none => simp [bind, Except.bind]
  | some validator => simp [bind, Except.bind, pure, Except.pure]

theorem haveExited_eq_true_iff {indices : List Nat} :
    haveExited headState indices = .ok true ↔ ∀ i ∈ indices, ExitedBy headState i := by
  induction indices with
  | nil => simp [haveExited]
  | cons i indices ih =>
    rw [List.forall_mem_cons, ← ih, haveExited, getValidator, ExitedBy]
    cases headState.validators[i]? with
    | none => simp [bind, Except.bind]
    | some validator =>
      simp only [bind, Except.bind, Option.mem_def, Option.some.injEq, exists_eq_left']
      split_ifs with hlt
      · simp [pure, Except.pure, hlt]
      · simp [not_lt.mp hlt]

/-! ## What is dropped -/

theorem pruneAttesterSlashings_frame (headState : KeyedBeaconState) (this : OpPool) :
    (stateOf ((pruneAttesterSlashings headState).run this)).proposerSlashings
        = this.proposerSlashings ∧
      (stateOf ((pruneAttesterSlashings headState).run this)).voluntaryExits
        = this.voluntaryExits := by
  refine ⟨frame_pruneEntries (f := OpPool.proposerSlashings) ?_ this,
    frame_pruneEntries (f := OpPool.voluntaryExits) ?_ this⟩ <;> exact fun _ _ => rfl

theorem pruneProposerSlashings_frame (headState : KeyedBeaconState) (this : OpPool) :
    (stateOf ((pruneProposerSlashings headState).run this)).attesterSlashings
        = this.attesterSlashings ∧
      (stateOf ((pruneProposerSlashings headState).run this)).voluntaryExits
        = this.voluntaryExits := by
  refine ⟨frame_pruneEntries (f := OpPool.attesterSlashings) ?_ this,
    frame_pruneEntries (f := OpPool.voluntaryExits) ?_ this⟩ <;> exact fun _ _ => rfl

theorem pruneVoluntaryExits_frame (headState : KeyedBeaconState) (this : OpPool) :
    (stateOf ((pruneVoluntaryExits headState).run this)).attesterSlashings
        = this.attesterSlashings ∧
      (stateOf ((pruneVoluntaryExits headState).run this)).proposerSlashings
        = this.proposerSlashings := by
  refine ⟨frame_pruneEntries (f := OpPool.attesterSlashings) ?_ this,
    frame_pruneEntries (f := OpPool.proposerSlashings) ?_ this⟩ <;> exact fun _ _ => rfl

theorem attesterSlashingsRead_iff : this.AttesterSlashingsRead headState ↔
    (errorOf ((pruneAttesterSlashings headState).run this)).isNone = true := by
  rw [Option.isNone_iff_eq_none]
  exact (errorOf_pruneEntries _ _).symm

theorem proposerSlashingsRead_iff : this.ProposerSlashingsRead headState ↔
    (errorOf ((pruneProposerSlashings headState).run
      (stateOf ((pruneAttesterSlashings headState).run this)))).isNone = true := by
  rw [Option.isNone_iff_eq_none, ProposerSlashingsRead,
    ← (pruneAttesterSlashings_frame headState this).1]
  exact (errorOf_pruneEntries _ _).symm

theorem notMem_attesterSlashings_pruned {e : RootHex × AttesterSlashingCached}
    (he : e ∈ this.attesterSlashings.entries) :
    e ∉ (this.pruned headState).attesterSlashings.entries ↔
      e ∈ droppedEntries (fun e => haveExited headState e.2.intersectingIndices)
        this.attesterSlashings.entries := by
  have hpruned : (this.pruned headState).attesterSlashings
      = (stateOf ((pruneAttesterSlashings headState).run this)).attesterSlashings := by
    unfold pruned pruneAll
    rw [stateOf_run_bind_unit, stateOf_run_bind_unit]
    split_ifs
    · rw [(pruneVoluntaryExits_frame _ _).1, (pruneProposerSlashings_frame _ _).1]
    · rw [(pruneProposerSlashings_frame _ _).1]
    · rfl
  rw [hpruned]
  exact notMem_entries_pruneEntries (f := OpPool.attesterSlashings) (fun _ _ => rfl) he

theorem notMem_proposerSlashings_pruned {e : Nat × ProposerSlashing}
    (he : e ∈ this.proposerSlashings.entries) :
    e ∉ (this.pruned headState).proposerSlashings.entries ↔
      this.AttesterSlashingsRead headState ∧
        e ∈ droppedEntries
          (fun e => hasExited headState e.2.signedHeader1.message.proposerIndex)
          this.proposerSlashings.entries := by
  have hframe := (pruneAttesterSlashings_frame headState this).1
  by_cases hread : this.AttesterSlashingsRead headState
  · have hpruned : (this.pruned headState).proposerSlashings
        = (stateOf ((pruneProposerSlashings headState).run
            (stateOf ((pruneAttesterSlashings headState).run this)))).proposerSlashings := by
      unfold pruned pruneAll
      rw [stateOf_run_bind_unit, if_pos (attesterSlashingsRead_iff.mp hread),
        stateOf_run_bind_unit]
      split_ifs
      · rw [(pruneVoluntaryExits_frame _ _).2]
      · rfl
    rw [hpruned, and_iff_right hread]
    rw [← hframe] at he ⊢
    exact notMem_entries_pruneEntries (f := OpPool.proposerSlashings) (fun _ _ => rfl) he
  · have hpruned : (this.pruned headState).proposerSlashings = this.proposerSlashings := by
      unfold pruned pruneAll
      rw [stateOf_run_bind_unit, if_neg (mt attesterSlashingsRead_iff.mpr hread), hframe]
    rw [hpruned]
    exact iff_of_false (not_not.mpr he) fun h => hread h.1

theorem notMem_voluntaryExits_pruned {e : Nat × SignedVoluntaryExit}
    (he : e ∈ this.voluntaryExits.entries) :
    e ∉ (this.pruned headState).voluntaryExits.entries ↔
      this.AttesterSlashingsRead headState ∧ this.ProposerSlashingsRead headState ∧
        e.2.message.epoch ≤ headState.finalizedCheckpoint.epoch := by
  have hframe := (pruneAttesterSlashings_frame headState this).2
  have hframe' := (pruneProposerSlashings_frame headState
    (stateOf ((pruneAttesterSlashings headState).run this))).2
  by_cases hread : this.AttesterSlashingsRead headState
  · by_cases hread' : this.ProposerSlashingsRead headState
    · have hpruned : this.pruned headState = stateOf ((pruneVoluntaryExits headState).run
          (stateOf ((pruneProposerSlashings headState).run
            (stateOf ((pruneAttesterSlashings headState).run this))))) := by
        unfold pruned pruneAll
        rw [stateOf_run_bind_unit, if_pos (attesterSlashingsRead_iff.mp hread),
          stateOf_run_bind_unit, if_pos (proposerSlashingsRead_iff.mp hread')]
      rw [hpruned, and_iff_right hread, and_iff_right hread']
      rw [← hframe, ← hframe'] at he
      refine (notMem_entries_pruneEntries (f := OpPool.voluntaryExits) (fun _ _ => rfl) he).trans ?_
      have hchecked {l : List (Nat × SignedVoluntaryExit)} : checkedEntries (fun e =>
          (.ok (decide (e.2.message.epoch ≤ headState.finalizedCheckpoint.epoch)) :
            Except String Bool)) l = l := List.takeWhile_eq_self_iff.mpr fun _ _ => rfl
      rw [mem_droppedEntries, hchecked]
      simp [he]
    · have hpruned : (this.pruned headState).voluntaryExits = this.voluntaryExits := by
        unfold pruned pruneAll
        rw [stateOf_run_bind_unit, if_pos (attesterSlashingsRead_iff.mp hread),
          stateOf_run_bind_unit, if_neg (mt proposerSlashingsRead_iff.mpr hread'), hframe', hframe]
      rw [hpruned]
      exact iff_of_false (not_not.mpr he) fun h => hread' h.2.1
  · have hpruned : (this.pruned headState).voluntaryExits = this.voluntaryExits := by
      unfold pruned pruneAll
      rw [stateOf_run_bind_unit, if_neg (mt attesterSlashingsRead_iff.mpr hread), hframe]
    rw [hpruned]
    exact iff_of_false (not_not.mpr he) fun h => hread h.1

/-- Nothing is added. -/
def Fewer (this pruned : OpPool) : Prop :=
  pruned.attesterSlashings.entries ⊆ this.attesterSlashings.entries ∧
    pruned.proposerSlashings.entries ⊆ this.proposerSlashings.entries ∧
    pruned.voluntaryExits.entries ⊆ this.voluntaryExits.entries

omit [Preset] in
theorem Fewer.refl (this : OpPool) : Fewer this this :=
  ⟨List.Subset.refl _, List.Subset.refl _, List.Subset.refl _⟩

omit [Preset] in
theorem Fewer.trans {a b c : OpPool} (h : Fewer a b) (h' : Fewer b c) : Fewer a c :=
  ⟨List.Subset.trans h'.1 h.1, List.Subset.trans h'.2.1 h.2.1, List.Subset.trans h'.2.2 h.2.2⟩

theorem fewer_pruned (this : OpPool) (headState : KeyedBeaconState) :
    Fewer this (this.pruned headState) := by
  have hattester : Moves Fewer (pruneAttesterSlashings headState) := by
    refine Moves.get_bind fun this => moves_pruneEntries Fewer.refl .trans ?_ this
    exact fun _ this => ⟨List.filter_subset_self _, List.Subset.refl _, List.Subset.refl _⟩
  have hproposer : Moves Fewer (pruneProposerSlashings headState) := by
    refine Moves.get_bind fun this => moves_pruneEntries Fewer.refl .trans ?_ this
    exact fun _ this => ⟨List.Subset.refl _, List.filter_subset_self _, List.Subset.refl _⟩
  have hexit : Moves Fewer (pruneVoluntaryExits headState) := by
    refine Moves.get_bind fun this => moves_pruneEntries Fewer.refl .trans ?_ this
    exact fun _ this => ⟨List.Subset.refl _, List.Subset.refl _, List.filter_subset_self _⟩
  exact Moves.bind .trans hattester (fun _ => Moves.bind .trans hproposer fun _ => hexit) this

/-! ## Operations that cannot be processed -/

section

variable {fork : ForkName} {state' : KeyedBeaconState}

theorem processProposerSlashing_ne_ok {op : ProposerSlashing} {verifySignatures : Bool}
    (h : slashable state op.signedHeader1.message.proposerIndex = false) :
    processProposerSlashing bls verifySignatures fork state op ≠ .ok state' := by
  intro hok
  obtain ⟨⟨⟩, hvalid, -⟩ := eq_ok_of_bind hok
  obtain ⟨⟨⟩, -, hvalid⟩ := eq_ok_of_bind hvalid
  obtain ⟨proposer, hproposer, hvalid⟩ := eq_ok_of_bind hvalid
  cases hslashable : isSlashableValidator proposer state.epochCtx.currentShuffling.epoch
  · rw [hslashable] at hvalid
    cases hvalid
  · rw [slashable_iff.mpr ⟨proposer, hproposer, hslashable⟩] at h
    cases h

theorem slashIndices_eq_ok {indices : List Nat} {any any' : Bool}
    (h : ∀ i ∈ indices, slashable state i = false)
    (hok : slashIndices fork indices (state, any) = .ok (state', any')) : any' = any := by
  induction indices with
  | nil => exact (Prod.mk.inj (Except.ok.inj hok)).2.symm
  | cons i indices ih =>
    obtain ⟨hi, h⟩ := List.forall_mem_cons.mp h
    obtain ⟨validator, hvalidator, hok⟩ := eq_ok_of_bind hok
    cases hslashable : isSlashableValidator validator state.epochCtx.currentShuffling.epoch
    · rw [hslashable] at hok
      exact ih h hok
    · rw [slashable_iff.mpr ⟨validator, hvalidator, hslashable⟩] at hi
      cases hi

theorem processAttesterSlashing_ne_ok {op : AttesterSlashing} {verifySignatures : Bool}
    (h : ∀ i ∈ getAttesterSlashableIndices op, slashable state i = false) :
    processAttesterSlashing bls verifySignatures fork state op ≠ .ok state' := by
  intro hok
  obtain ⟨⟨⟩, -, hok⟩ := eq_ok_of_bind hok
  obtain ⟨⟨next, any⟩, hslash, hok⟩ := eq_ok_of_bind hok
  have hperm := List.mergeSort_perm (getAttesterSlashableIndices op) (· ≤ ·)
  obtain rfl := slashIndices_eq_ok (fun i hi => h i (hperm.mem_iff.mp hi)) hslash
  cases hok

theorem processVoluntaryExit_ne_ok {op : SignedVoluntaryExit} {verifySignature : Bool}
    (h : ExitInitiated state op.message.validatorIndex) :
    processVoluntaryExitAllForks bls verifySignature state op ≠ .ok state' := by
  intro hok
  obtain ⟨validator, hget, hset⟩ := h
  have hvalidator : getValidator state op.message.validatorIndex = .ok validator := by
    rw [getValidator, hget]
  obtain ⟨valid, hvalid, hok⟩ := eq_ok_of_bind hok
  have hfalse : isValidVoluntaryExit bls state op verifySignature = .ok false := by
    unfold isValidVoluntaryExit
    simp [hvalidator, hset, bind, Except.bind, pure, Except.pure]
  obtain rfl := Except.ok.inj (hvalid.symm.trans hfalse)
  cases hok

end

/-! ## Along the chain -/

theorem slashable_eq_false_iff (hinv : EpochInv state.toCachedBeaconState) {validator : Validator}
    (hget : state.validators[i]? = some validator) :
    slashable state i = false ↔ validator.slashed = true ∨
      (computeEpochAtSlot state.slot : WithTop Nat) < validator.activationEpoch ∨
      validator.withdrawableEpoch ≤ (computeEpochAtSlot state.slot : WithTop Nat) := by
  rw [slashable, hget, hinv.currentEpoch, Option.any_some]
  cases hslashed : validator.slashed
  · simp [isSlashableValidator, hslashed, or_iff_not_imp_left]
  · simp [isSlashableValidator, hslashed]

/-- A validator that has exited in the head by the finalized epoch has in the finalized state. -/
theorem Finalized.exited (h : Finalized bls headState finalized) (hexited : ExitedBy headState i) :
    ∃ validator, finalized.validators[i]? = some validator ∧
      validator.exitEpoch ≤ (computeEpochAtSlot finalized.slot : WithTop Nat) := by
  obtain ⟨validator', hget', hle⟩ := hexited
  rw [← h.epoch_eq] at hle
  have hsince := (h.descends.advance h.inv).since
  by_cases hi : i < finalized.validators.length
  · have hget := List.getElem?_eq_getElem hi
    obtain ⟨w, hw, hlater⟩ := hsince.kept i _ hget
    obtain rfl := Option.some.inj (hw.symm.trans hget')
    exact ⟨_, hget, by rwa [hlater.exitEpoch_eq hle]⟩
  · exact absurd hle (not_le_of_gt (hsince.appended i validator' (Nat.le_of_not_lt hi) hget'))

theorem Finalized.slashable_eq_false (h : Finalized bls headState finalized)
    (hexited : ExitedBy headState i) (hexpired : Expired finalized i)
    (hdescends : DescendsFrom bls finalized state) : slashable state i = false := by
  obtain ⟨validator, hget, hle⟩ := h.exited hexited
  obtain ⟨w, hw, hexpired⟩ := hexpired
  obtain rfl := Option.some.inj (hw.symm.trans hget)
  have hset : w.exitEpoch ≠ FAR_FUTURE_EPOCH := fun hfar =>
    absurd hle (not_le_of_gt (hfar ▸ WithTop.coe_lt_top _))
  have hadvance := hdescends.advance h.inv
  obtain ⟨v, hv, hlater⟩ := hadvance.since.kept i w hget
  rw [slashable_eq_false_iff hadvance.inv hv]
  rcases hexpired with hslashed | hwithdrawable
  · exact .inl (hlater.slashed hslashed)
  · rcases hlater.withdrawableEpoch hset with hsame | hslashed
    · right; right
      rw [hsame]
      exact hwithdrawable.trans (WithTop.coe_le_coe.mpr hadvance.epoch_le)
    · exact .inl hslashed

theorem Finalized.expired (h : Finalized bls headState finalized) (hexited : ExitedBy headState i)
    (hslashable : slashable finalized i = false) : Expired finalized i := by
  obtain ⟨validator, hget, hle⟩ := h.exited hexited
  have hactive := (h.activated validator (List.mem_of_getElem? hget)).trans hle
  rcases (slashable_eq_false_iff h.inv hget).mp hslashable with hslashed | hlt | hwithdrawable
  · exact ⟨validator, hget, .inl hslashed⟩
  · exact absurd hactive (not_le_of_gt hlt)
  · exact ⟨validator, hget, .inr hwithdrawable⟩

theorem ExitInitiated.descends (hinv : EpochInv finalized.toCachedBeaconState)
    (hexit : ExitInitiated finalized i) (hdescends : DescendsFrom bls finalized state) :
    ExitInitiated state i := by
  obtain ⟨validator, hget, hset⟩ := hexit
  obtain ⟨v, hv, hlater⟩ := (hdescends.advance hinv).since.kept i validator hget
  exact ⟨v, hv, hlater.exitEpoch_ne hset⟩

/-- What `pruneAll` drops can no longer be processed if and only if the slashings are of validators
slashed or withdrawable in the finalized state, and the exits have been initiated in it. -/
theorem keepsIncludable_iff (bls : Signatures) (this : OpPool)
    (headState finalized : KeyedBeaconState) (h : Finalized bls headState finalized) :
    this.KeepsIncludable bls headState finalized ↔ this.DropsExpired headState finalized := by
  constructor
  · intro hkeeps
    refine ⟨?_, ?_, ?_⟩
    · intro e he hexited index hindex
      have hmem : e ∈ this.attesterSlashings.entries := (List.takeWhile_sublist _).subset he
      have hdropped := (notMem_attesterSlashings_pruned hmem).mpr
        (mem_droppedEntries.mpr ⟨he, haveExited_eq_true_iff.mpr hexited⟩)
      exact h.expired (hexited index hindex)
        ((hkeeps.attesterSlashings e hmem hdropped finalized .refl).1 index hindex)
    · intro hread e he hexited
      have hmem : e ∈ this.proposerSlashings.entries := (List.takeWhile_sublist _).subset he
      have hdropped := (notMem_proposerSlashings_pruned hmem).mpr
        ⟨hread, mem_droppedEntries.mpr ⟨he, hasExited_eq_true_iff.mpr hexited⟩⟩
      exact h.expired hexited (hkeeps.proposerSlashings e hmem hdropped finalized .refl).1
    · intro hread hread' e he hepoch
      exact (hkeeps.voluntaryExits e he
        ((notMem_voluntaryExits_pruned he).mpr ⟨hread, hread', hepoch⟩)).1
  · intro hdrops
    refine ⟨?_, ?_, ?_⟩
    · intro e he hdropped state hstate
      obtain ⟨hchecked, hexited⟩ :=
        mem_droppedEntries.mp ((notMem_attesterSlashings_pruned he).mp hdropped)
      rw [haveExited_eq_true_iff] at hexited
      have hnone : ∀ index ∈ e.2.intersectingIndices, slashable state index = false :=
        fun index hindex => h.slashable_eq_false (hexited index hindex)
          (hdrops.attesterSlashings e hchecked hexited index hindex) hstate
      refine ⟨hnone, fun _ _ _ => processAttesterSlashing_ne_ok ?_⟩
      rwa [← e.2.intersectingIndices_eq]
    · intro e he hdropped state hstate
      obtain ⟨hread, hdropped⟩ := (notMem_proposerSlashings_pruned he).mp hdropped
      obtain ⟨hchecked, hexited⟩ := mem_droppedEntries.mp hdropped
      rw [hasExited_eq_true_iff] at hexited
      have hnone := h.slashable_eq_false hexited
        (hdrops.proposerSlashings hread e hchecked hexited) hstate
      exact ⟨hnone, fun _ _ _ => processProposerSlashing_ne_ok hnone⟩
    · intro e he hdropped
      obtain ⟨hread, hread', hepoch⟩ := (notMem_voluntaryExits_pruned he).mp hdropped
      have hexit := hdrops.voluntaryExits hread hread' e he hepoch
      exact ⟨hexit, fun state hstate _ _ =>
        processVoluntaryExit_ne_ok (hexit.descends h.inv hstate)⟩

end

/-! ## A chain of two epochs -/

attribute [local instance] minimal

/-- The first validator has exited, but may not withdraw; the second has been slashed. -/
def leftValidators : List Validator :=
  (eightValidators.modify 0 fun validator =>
    { validator with exitEpoch := (97 : Nat), withdrawableEpoch := (353 : Nat) }).modify 1
      fun validator =>
        { validator with
          slashed := true
          exitEpoch := (90 : Nat)
          withdrawableEpoch := (346 : Nat) }

/-- The first state of epoch 98. -/
def finalizedState : KeyedBeaconState :=
  { eightState with
    slot := 784
    validators := leftValidators
    finalizedCheckpoint := ⟨96, 0⟩
    epochCtx :=
      { eightState.epochCtx with
        previousShuffling := ⟨97, List.range 8⟩
        currentShuffling := ⟨98, List.range 8⟩
        nextShuffling := ⟨99, List.range 8⟩
        exitQueueEpoch := 103
        epoch := 98 } }

/-- The state of `slot`, all else unchanged. -/
def atSlot (state : KeyedBeaconState) (slot : Nat) : KeyedBeaconState := { state with slot }

/-- A state of the last slot of an epoch, in the next one. -/
def nextEpoch (state : KeyedBeaconState) : KeyedBeaconState :=
  { state with
    slot := state.slot + 1
    epochCtx := state.epochCtx.afterProcessEpoch state.config (state.slot + 1)
      ⟨List.range 8, 256⟩ }

/-- A state of epoch 100, which finalizes epoch 98. -/
def headOfChain : KeyedBeaconState :=
  { atSlot (nextEpoch (atSlot (nextEpoch (atSlot finalizedState 791)) 799)) 803 with
    finalizedCheckpoint := ⟨98, 0⟩ }

theorem keepsExits_refl (validators : List Validator) : KeepsExits validators validators where
  kept _ validator h := ⟨validator, h, rfl, rfl, rfl⟩
  appended _ _ hi h := absurd (List.getElem?_eq_some_iff.mp h).1 (Nat.not_lt.mpr hi)

theorem finalized_headOfChain : Finalized signedByAll headOfChain finalizedState where
  descends := by
    have hslots (state : KeyedBeaconState) (slot : Nat)
        (hslot : computeEpochAtSlot slot = computeEpochAtSlot state.slot) :
        ChainStep signedByAll state (atSlot state slot) :=
      .other _ _ hslot ⟨_, rfl⟩ (keepsExits_refl _)
    have hepoch (state : KeyedBeaconState) (hslot : (state.slot + 1) % SLOTS_PER_EPOCH = 0) :
        ChainStep signedByAll state (nextEpoch state) := .epoch _ _ hslot
    have hfirst := (Relation.ReflTransGen.single (hslots finalizedState 791 rfl)).tail
      (hepoch _ rfl)
    have hsecond := (hfirst.tail (hslots _ 799 rfl)).tail (hepoch _ rfl)
    exact (hsecond.tail (hslots _ 803 rfl)).tail
      (.other _ headOfChain rfl ⟨_, rfl⟩ (keepsExits_refl _))
  epoch_eq := rfl
  inv := ⟨rfl, rfl, by decide⟩
  activated := by decide +kernel

/-- A double vote, a double proposal and an exit. -/
def threeOperations (voter proposer leaving : Nat) : OpPool :=
  ((OpPool.empty.insertAttesterSlashing (doubleVote voter) 0).insertProposerSlashing
    (doubleProposal proposer)).insertVoluntaryExit ⟨⟨90, leaving⟩, 0⟩

/-- The operations of a slashed validator and an exited one are dropped for good. -/
theorem keepsIncludable_threeOperations :
    (threeOperations 1 1 0).KeepsIncludable signedByAll headOfChain finalizedState :=
  (keepsIncludable_iff signedByAll (threeOperations 1 1 0) headOfChain finalizedState
    finalized_headOfChain).mpr
      ⟨by decide +kernel, fun _ => by decide +kernel, fun _ _ => by decide +kernel⟩

/-- The slashings of a validator that may not withdraw yet are dropped, and so is an exit of one
that has not left. -/
theorem not_keepsIncludable_threeOperations :
    ¬ ∀ (bls : Signatures) (this : OpPool) (headState finalized : KeyedBeaconState),
      Finalized bls headState finalized → this.KeepsIncludable bls headState finalized := by
  intro h
  have hkeeps := h signedByAll (threeOperations 0 0 7) headOfChain finalizedState
    finalized_headOfChain
  have hdropped : ((threeOperations 0 0 7).pruned headOfChain).proposerSlashings.entries = [] := by
    decide +kernel
  have hslashable : slashable headOfChain 0 = true := by decide +kernel
  have hnone := (hkeeps.proposerSlashings (0, doubleProposal 0) (by decide +kernel)
    (by rw [hdropped]; exact List.not_mem_nil) headOfChain finalized_headOfChain.descends).1
  exact absurd (hslashable.symm.trans hnone) Bool.noConfusion

end Lodestar.Chain.OpPool

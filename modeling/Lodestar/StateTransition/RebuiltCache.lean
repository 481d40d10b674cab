import Lodestar.StateTransition.CacheRuns

/-!
# The epoch cache against a rebuild

The shufflings, the churn limit and the effective balances that a run maintains
are those that `createFromState` would compute of the state. The previous
epoch's active set is in the past, where nothing is written. With the queue kept
in this way no epoch is given more exits than the churn limit.
-/

namespace Lodestar.StateTransition

section

/-- `previousEpoch` of `createFromState`. -/
def epochBefore (epoch : Nat) : Nat := if epoch = GENESIS_EPOCH then GENESIS_EPOCH else epoch - 1

theorem epochBefore_succ (epoch : Nat) : epochBefore (epoch + 1) = epoch :=
  if_neg (Nat.succ_ne_zero epoch)

theorem epochBefore_le (epoch : Nat) : epochBefore epoch ≤ epoch := by
  unfold epochBefore GENESIS_EPOCH
  split_ifs <;> omega

variable [Preset] {allowed : CachedBeaconState (List Nat) → List Nat → Prop}

/-- A cache that was rebuilt, on the entries of the registry. -/
structure Rebuilt (validators : List Validator) (rebuilt epochCtx : EpochContext) : Prop where
  epoch : rebuilt.epoch = epochCtx.epoch
  previousShuffling : rebuilt.previousShuffling = epochCtx.previousShuffling
  currentShuffling : rebuilt.currentShuffling = epochCtx.currentShuffling
  nextShuffling : rebuilt.nextShuffling = epochCtx.nextShuffling
  churnLimit : rebuilt.churnLimit = epochCtx.churnLimit
  effectiveBalanceIncrements : ∀ i < validators.length,
    rebuilt.effectiveBalanceIncrements[i]? = epochCtx.effectiveBalanceIncrements[i]?

/-! ## The previous epoch -/

theorem previousActiveIndices_foldl (previousEpoch currentEpoch nextEpoch : Nat)
    (validators : List Validator) {s : RegistryScan} (hs : s.previousActiveIndices = []) :
    (validators.zipIdx.foldl (scanValidator previousEpoch currentEpoch nextEpoch)
      s).previousActiveIndices = getActiveValidatorIndices validators previousEpoch := by
  induction validators using List.reverseRecOn with
  | nil => exact hs
  | append_singleton validators validator ih =>
    rw [List.zipIdx_append, List.foldl_append, getActiveValidatorIndices_concat, ← ih,
      List.zipIdx_singleton, List.foldl_cons, List.foldl_nil, Nat.zero_add]
    rfl

theorem createFromState_previous {config : ChainConfig} {slot : Nat} {validators : List Validator}
    {epochCtx : EpochContext} (h : createFromState config slot validators = .ok epochCtx) :
    epochCtx.epoch = computeEpochAtSlot slot ∧
      epochCtx.previousShuffling = ⟨epochBefore (computeEpochAtSlot slot),
        getActiveValidatorIndices validators (epochBefore (computeEpochAtSlot slot))⟩ := by
  have hcurrent := (createFromState_ok h).1
  unfold createFromState at h
  dsimp only at h
  split at h
  · cases h
  · obtain rfl := Except.ok.inj h
    refine ⟨rfl, ?_⟩
    dsimp only at hcurrent ⊢
    unfold epochBefore
    split_ifs with hgenesis
    · rw [hcurrent, hgenesis]
    · rw [scanRegistry, if_neg hgenesis, previousActiveIndices_foldl _ _ _ _ rfl]

/-! ## The invariant -/

/-- The cache follows the registry, in the previous epoch too. -/
structure RebuiltInv (state : CachedBeaconState (List Nat)) : Prop extends CacheInv state where
  epoch : state.epochCtx.epoch = computeEpochAtSlot state.slot
  previous : state.epochCtx.previousShuffling = ⟨epochBefore (computeEpochAtSlot state.slot),
    getActiveValidatorIndices state.validators (epochBefore (computeEpochAtSlot state.slot))⟩

theorem RegistryStep.epochCtx {state state' : CachedBeaconState (List Nat)}
    (hstep : RegistryStep state state') :
    state'.epochCtx.epoch = state.epochCtx.epoch ∧
      state'.epochCtx.previousShuffling = state.epochCtx.previousShuffling := by
  cases hstep with
  | exit index =>
    unfold CachedBeaconState.initiateValidatorExit StateTransition.initiateValidatorExit
    split
    · exact ⟨rfl, rfl⟩
    · dsimp only
      split_ifs <;> exact ⟨rfl, rfl⟩
  | other _ _ _ hctx => rw [hctx]; exact ⟨rfl, rfl⟩

namespace RebuiltInv

theorem of_created {config : ChainConfig} {state : CachedBeaconState (List Nat)}
    (h : createFromState config state.slot state.validators = .ok state.epochCtx)
    (hinv : CacheInv state) : RebuiltInv state where
  toCacheInv := hinv
  epoch := (createFromState_previous h).1
  previous := (createFromState_previous h).2

theorem step {state state' : RewardedState} (h : RebuiltInv state.toCachedBeaconState)
    (hstep : CacheStep allowed state state') : RebuiltInv state'.toCachedBeaconState := by
  have hinv := h.toCacheInv.step hstep
  cases hstep with
  | registry next hstep =>
    obtain ⟨-, hframe⟩ := h.registryStep hstep
    obtain ⟨hepoch, hprevious⟩ := hstep.epochCtx
    refine ⟨hinv, ?_, ?_⟩
    · rw [hframe.epoch, ← h.epoch]
      exact hepoch
    · have hlt : epochBefore (computeEpochAtSlot state.slot) <
          computeActivationExitEpoch (computeEpochAtSlot state.slot) := by
        have hle := epochBefore_le (computeEpochAtSlot state.slot)
        unfold computeActivationExitEpoch
        omega
      rw [hframe.epoch, getActiveValidatorIndices_congr (hframe.active _ hlt), ← h.previous]
      exact hprevious
  | deposit validator balance hactivation hexit =>
    refine ⟨hinv, h.epoch, ?_⟩
    show state.epochCtx.previousShuffling = ⟨_, getActiveValidatorIndices (_ ++ [validator]) _⟩
    rw [getActiveValidatorIndices_concat, CacheInv.isActiveValidator_farFuture hactivation,
      if_neg Bool.false_ne_true]
    exact h.previous
  | epoch next epochProcess withAttestations balances hbefore hsteps hslot hbalances =>
    have hdone := epochFinished_of_before h.toCacheInv hbefore hsteps hslot hbalances
    have hnext := (h.toCacheInv.registrySteps hsteps).1
    refine ⟨hinv, rfl, ?_⟩
    -- the current epoch of before the transition is the previous one now
    rw [hdone.epoch, epochBefore_succ, hdone.validators, getActiveValidatorIndices_congr
      (map_updatedBelow (fun _ _ => isActiveValidator_withEffectiveBalance _ _ _) _ _ _)]
    exact hnext.current
  | upgrade epochCtx hctx => exact .of_created hctx hinv

theorem run {state state' : RewardedState} (h : RebuiltInv state.toCachedBeaconState)
    (hrun : Relation.ReflTransGen (CacheStep allowed) state state') :
    RebuiltInv state'.toCachedBeaconState := by
  induction hrun with
  | refl => exact h
  | tail _ hstep ih => exact ih.step hstep

end RebuiltInv

/-- In every state of a run, a cache made anew from the state agrees with the one that was updated
step by step. -/
theorem rebuilt_of_run {state₀ state : RewardedState} (h₀ : state₀.Created)
    (hrun : Relation.ReflTransGen (CacheStep allowed) state₀ state) {rebuilt : EpochContext}
    (hrebuilt : createFromState state.config state.slot state.validators = .ok rebuilt) :
    Rebuilt state.validators rebuilt state.epochCtx := by
  have hinv := (RebuiltInv.of_created h₀.1 (.of_created h₀.1)).run hrun
  obtain ⟨hcurrent, hnext, hchurn, hagree, -⟩ := createFromState_ok hrebuilt
  obtain ⟨hepoch, hprevious⟩ := createFromState_previous hrebuilt
  refine ⟨hepoch.trans hinv.epoch.symm, hprevious.trans hinv.previous.symm,
    hcurrent.trans hinv.current.symm, hnext.trans hinv.next.symm,
    hchurn.trans hinv.churnLimit.symm, ?_⟩
  intro i hlt
  have hi := List.getElem?_eq_getElem hlt
  rw [hagree i _ hi, hinv.agree i _ hi]

/-! ## Exits within the churn limit -/

omit [Preset] in
theorem churn_le_of_exit {limit qe qc qe' qc' : Nat}
    (hq : (qe', qc') = if limit ≤ qc then (qe + 1, 1) else (qe, qc + 1)) : qc' ≤ max 1 limit := by
  split_ifs at hq <;> obtain ⟨-, rfl⟩ := Prod.mk.inj hq <;> omega

/-- In every state of a run an exit is put behind all others, not before the first epoch it can
take effect in, where it is one of at most as many as the churn limit allows. -/
theorem exit_within_churnLimit {state₀ state : RewardedState} (h₀ : state₀.Created)
    (hrun : Relation.ReflTransGen (CacheStep allowed) state₀ state) {i : Nat} {validator : Validator}
    (hvalidator : state.validators[i]? = some validator)
    (hexit : validator.exitEpoch = FAR_FUTURE_EPOCH) :
    ∃ exitEpoch, (state.initiateValidatorExit i).validators =
        state.validators.set i (exitAt state.config validator exitEpoch) ∧
      computeActivationExitEpoch (computeEpochAtSlot state.slot) ≤ exitEpoch ∧
      (∀ epoch ∈ exitEpochs state.validators, epoch ≤ exitEpoch) ∧
      (exitEpochs (state.initiateValidatorExit i).validators).count exitEpoch ≤
        max 1 (getChurnLimit state.config
          (getActiveValidatorIndices state.validators (computeEpochAtSlot state.slot)).length) := by
  have hinv := (CacheInv.of_created h₀.1).run hrun
  obtain ⟨qe, qc, hq, hstate⟩ := CachedBeaconState.initiateValidatorExit_eq hvalidator hexit
  have hlast := hinv.queue.le hq
  have hexits : (exitEpochs (state.validators.set i (exitAt state.config validator qe))).Perm
      (qe :: exitEpochs state.validators) := exitEpochs_set hvalidator hexit rfl
  refine ⟨qe, by rw [hstate], (le_foldl_max _ _).trans hlast,
    fun epoch hmem => (le_foldl_max_of_mem _ _ hmem).trans hlast, ?_⟩
  rw [hstate, hexits.count_eq]
  -- the cached churn is the number of exits at the cached epoch
  obtain ⟨hepoch, hchurn⟩ := Prod.mk.inj (hinv.queue.exit hq)
  rw [← hepoch] at hchurn
  rw [← hchurn, ← hinv.churnLimit]
  exact churn_le_of_exit hq

end

attribute [local instance] smallBalancePreset

/-- Its only validator is ejected at the end of the epoch. -/
theorem rebuilt_smallBalance :
    Rebuilt (smallBalanceNext 750000000).validators (smallBalanceNext 750000000).epochCtx
      (smallBalanceNext 750000000).epochCtx :=
  have hrun : Relation.ReflTransGen (CacheStep fun _ _ => True) smallBalanceState
      (smallBalanceNext 750000000) := smallBalanceNext_step trivial
  rebuilt_of_run smallBalanceState_created hrun (by decide +kernel)

theorem exit_smallBalance :
    ∃ exitEpoch, 5 ≤ exitEpoch ∧ (exitEpochs
      (smallBalanceState.initiateValidatorExit 0).validators).count exitEpoch ≤ 4 := by
  have hrun : Relation.ReflTransGen (CacheStep fun _ _ => True) smallBalanceState
      smallBalanceState := .refl
  obtain ⟨exitEpoch, -, hle, -, hcount⟩ := exit_within_churnLimit smallBalanceState_created hrun
    (rfl : smallBalanceState.validators[0]? = some _) rfl
  exact ⟨exitEpoch, hle.trans' (by decide +kernel), hcount.trans (by decide +kernel)⟩

end Lodestar.StateTransition

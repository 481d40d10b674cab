import Lodestar.StateTransition.EffectiveBalances
import Lodestar.StateTransition.ExitQueue

/-!
# The epoch cache along runs

`createFromState` computes the active sets, the churn limit, the effective
balances and their total from the registry; a run updates them one by one. Who
is active up to `MAX_SEED_LOOKAHEAD` epochs ahead no longer changes, so all of
them stay those of the registry, but for the total: only `createFromState` has a
floor of one increment.
-/

namespace Lodestar.StateTransition

open Lodestar.Base

/-! ## Indices of the registry -/

section

variable {p : Validator → Bool} {validators validators' : List Validator} {i : Nat}

theorem indicesWhere_eq (p : Validator → Bool) (validators : List Validator) :
    indicesWhere p validators =
      (List.range validators.length).filter fun i => validators[i]?.any p := by
  induction validators using List.reverseRecOn with
  | nil => rfl
  | append_singleton validators validator ih =>
    have hold : (List.range validators.length).filter
        (fun i => (validators ++ [validator])[i]?.any p) =
        (List.range validators.length).filter fun i => validators[i]?.any p := by
      refine List.filter_congr fun i hmem => ?_
      rw [List.getElem?_append_left (List.mem_range.1 hmem)]
    have hnew : (validators ++ [validator])[validators.length]? = some validator :=
      List.getElem?_concat_length
    unfold indicesWhere at ih ⊢
    rw [List.zipIdx_append, List.filter_append, List.map_append, ih, List.length_append,
      List.length_singleton, List.range_succ, List.filter_append, hold]
    congr 1
    cases h : p validator <;> simp [h]

theorem indicesWhere_concat (p : Validator → Bool) (validators : List Validator)
    (validator : Validator) : indicesWhere p (validators ++ [validator]) =
      if p validator then indicesWhere p validators ++ [validators.length]
      else indicesWhere p validators := by
  unfold indicesWhere
  rw [List.zipIdx_append, List.filter_append, List.map_append]
  cases h : p validator <;> simp [h]

theorem mem_indicesWhere_iff :
    i ∈ indicesWhere p validators ↔ ∃ validator, validators[i]? = some validator ∧ p validator := by
  rw [indicesWhere_eq, List.mem_filter, List.mem_range, Option.any_eq_true]
  refine ⟨fun h => h.2, fun h => ⟨?_, h⟩⟩
  obtain ⟨validator, hvalidator, -⟩ := h
  exact (List.getElem?_eq_some_iff.1 hvalidator).1

theorem nodup_indicesWhere : (indicesWhere p validators).Nodup := by
  rw [indicesWhere_eq]
  exact List.nodup_range.filter _

theorem indicesWhere_eq_nil_iff :
    indicesWhere p validators = [] ↔ ∀ validator ∈ validators, p validator = false := by
  rw [List.eq_nil_iff_forall_not_mem]
  constructor
  · intro hnone validator hmem
    obtain ⟨i, hi⟩ := List.getElem?_of_mem hmem
    have hnot := mt mem_indicesWhere_iff.2 (hnone i)
    exact Bool.eq_false_iff.2 fun hp => hnot ⟨validator, hi, hp⟩
  · intro hnone i hmem
    obtain ⟨validator, hi, hp⟩ := mem_indicesWhere_iff.1 hmem
    rw [hnone validator (List.mem_of_getElem? hi)] at hp
    cases hp

theorem indicesWhere_congr (h : validators'.map p = validators.map p) :
    indicesWhere p validators' = indicesWhere p validators := by
  have hlength := congrArg List.length h
  rw [List.length_map, List.length_map] at hlength
  rw [indicesWhere_eq, indicesWhere_eq, hlength]
  refine List.filter_congr fun i _ => ?_
  have hi := congrArg (fun l => l[i]?) h
  simp only [List.getElem?_map] at hi
  cases hv' : validators'[i]? <;> cases hv : validators[i]? <;> simp_all

end

section

variable [Preset]

omit [Preset] in
theorem getActiveValidatorIndices_concat (validators : List Validator) (validator : Validator)
    (epoch : Nat) : getActiveValidatorIndices (validators ++ [validator]) epoch =
      if isActiveValidator validator epoch then
        getActiveValidatorIndices validators epoch ++ [validators.length]
      else getActiveValidatorIndices validators epoch :=
  indicesWhere_concat (isActiveValidator · epoch) validators validator

omit [Preset] in
theorem getActiveValidatorIndices_congr {validators validators' : List Validator} {epoch : Nat}
    (h : validators'.map (isActiveValidator · epoch) = validators.map (isActiveValidator · epoch)) :
    getActiveValidatorIndices validators' epoch = getActiveValidatorIndices validators epoch :=
  indicesWhere_congr h

/-! ## The loop of createFromState -/

/-- The increments of the validators that are active in an epoch. -/
def activeTotal (epoch : Nat) (validators : List Validator) : Nat :=
  (validators.map fun validator =>
    if isActiveValidator validator epoch then effectiveIncrements validator else 0).sum

theorem activeTotal_concat (epoch : Nat) (validators : List Validator) (validator : Validator) :
    activeTotal epoch (validators ++ [validator]) = activeTotal epoch validators +
      if isActiveValidator validator epoch then effectiveIncrements validator else 0 := by
  unfold activeTotal
  rw [List.map_append, List.sum_append, List.map_singleton, List.sum_singleton]

/-- What the loop has computed after the validators it has passed. -/
structure Scanned (previousEpoch currentEpoch nextEpoch : Nat) (validators : List Validator)
    (s : RegistryScan) : Prop where
  current : s.currentActiveIndices = getActiveValidatorIndices validators currentEpoch
  next : s.nextActiveIndices = getActiveValidatorIndices validators nextEpoch
  agree : IncrementsAgree validators s.effectiveBalanceIncrements
  total : s.totalActiveBalanceIncrements = activeTotal currentEpoch validators

theorem scanned_foldl (previousEpoch currentEpoch nextEpoch exitQueueEpoch : Nat)
    (increments : List Nat) (validators : List Validator)
    (hlength : validators.length ≤ increments.length) :
    (validators.zipIdx.foldl (scanValidator previousEpoch currentEpoch nextEpoch)
        { effectiveBalanceIncrements := increments, exitQueueEpoch }).effectiveBalanceIncrements.length =
      increments.length ∧
    Scanned previousEpoch currentEpoch nextEpoch validators
      (validators.zipIdx.foldl (scanValidator previousEpoch currentEpoch nextEpoch)
        { effectiveBalanceIncrements := increments, exitQueueEpoch }) := by
  induction validators using List.reverseRecOn with
  | nil => exact ⟨rfl, rfl, rfl, fun i validator h => by simp at h, rfl⟩
  | append_singleton validators validator ih =>
    rw [List.length_append, List.length_singleton] at hlength
    obtain ⟨hsize, ih⟩ := ih (by omega)
    rw [List.zipIdx_append, List.foldl_append]
    generalize validators.zipIdx.foldl (scanValidator previousEpoch currentEpoch nextEpoch) _ = s
      at hsize ih ⊢
    rw [List.zipIdx_singleton, List.foldl_cons, List.foldl_nil, Nat.zero_add]
    unfold scanValidator
    dsimp only
    refine ⟨by rw [List.length_set, hsize], ?_, ?_, ?_, ?_⟩
    · dsimp only
      rw [getActiveValidatorIndices_concat, ih.current]
    · dsimp only
      rw [getActiveValidatorIndices_concat, ih.next]
    · intro i other hother
      dsimp only
      by_cases heq : validators.length = i
      · subst heq
        rw [List.getElem?_concat_length] at hother
        obtain rfl := Option.some.inj hother
        rw [List.getElem?_set_self (by omega)]
        rfl
      · have hlt : i < validators.length := by
          have hle := (List.getElem?_eq_some_iff.1 hother).1
          rw [List.length_append, List.length_singleton] at hle
          omega
        rw [List.getElem?_append_left hlt] at hother
        rw [List.getElem?_set_ne heq]
        exact ih.agree i other hother
    · dsimp only
      rw [activeTotal_concat, ih.total]
      unfold effectiveIncrements
      split <;> rfl

theorem scanRegistry_scanned (currentEpoch : Nat) (validators : List Validator) :
    Scanned (if currentEpoch = GENESIS_EPOCH then GENESIS_EPOCH else currentEpoch - 1) currentEpoch
      (currentEpoch + 1) validators (scanRegistry currentEpoch validators) := by
  refine (scanned_foldl _ _ _ _ _ validators ?_).2
  unfold getEffectiveBalanceIncrementsWithLen
  rw [List.length_replicate]
  omega

theorem createFromState_ok {config : ChainConfig} {slot : Nat} {validators : List Validator}
    {epochCtx : EpochContext} (h : createFromState config slot validators = .ok epochCtx) :
    epochCtx.currentShuffling = ⟨computeEpochAtSlot slot,
        getActiveValidatorIndices validators (computeEpochAtSlot slot)⟩ ∧
      epochCtx.nextShuffling = ⟨computeEpochAtSlot slot + 1,
        getActiveValidatorIndices validators (computeEpochAtSlot slot + 1)⟩ ∧
      epochCtx.churnLimit = getChurnLimit config
        (getActiveValidatorIndices validators (computeEpochAtSlot slot)).length ∧
      IncrementsAgree validators epochCtx.effectiveBalanceIncrements ∧
      epochCtx.totalActiveBalanceIncrements =
        max 1 (activeTotal (computeEpochAtSlot slot) validators) := by
  have hscan := scanRegistry_scanned (computeEpochAtSlot slot) validators
  unfold createFromState at h
  dsimp only at h
  split at h
  · cases h
  · obtain rfl := Except.ok.inj h
    refine ⟨?_, ?_, ?_, hscan.agree, ?_⟩
    · rw [hscan.current]
    · rw [hscan.next]
    · rw [hscan.current]
    · dsimp only
      rw [hscan.total]
      split <;> omega

/-! ## One exit -/

section

variable {config : ChainConfig} {validator : Validator} {β : Type} {state : CachedBeaconState β}
  {i : Nat}

omit [Preset] in
/-- What an exit sets. -/
def exitAt (config : ChainConfig) (validator : Validator) (exitEpoch : Nat) : Validator :=
  { validator with
    exitEpoch := (exitEpoch : Nat)
    withdrawableEpoch := (exitEpoch + config.MIN_VALIDATOR_WITHDRAWABILITY_DELAY : Nat) }

omit [Preset] in
theorem CachedBeaconState.initiateValidatorExit_eq (hvalidator : state.validators[i]? = some validator)
    (hexit : validator.exitEpoch = FAR_FUTURE_EPOCH) :
    ∃ queueEpoch queueChurn : Nat,
      (queueEpoch, queueChurn) =
        (if state.epochCtx.churnLimit ≤ state.epochCtx.exitQueueChurn then
          (state.epochCtx.exitQueueEpoch + 1, 1)
        else (state.epochCtx.exitQueueEpoch, state.epochCtx.exitQueueChurn + 1)) ∧
      state.initiateValidatorExit i =
        { state with
          validators := state.validators.set i (exitAt state.config validator queueEpoch)
          epochCtx := { state.epochCtx with
            exitQueueEpoch := queueEpoch
            exitQueueChurn := queueChurn } } := by
  unfold CachedBeaconState.initiateValidatorExit
  rw [hvalidator]
  unfold StateTransition.initiateValidatorExit
  by_cases hfull : state.epochCtx.churnLimit ≤ state.epochCtx.exitQueueChurn
  · exact ⟨_, _, by rw [if_pos hfull], by simp [hexit, hfull, exitAt]⟩
  · exact ⟨_, _, by rw [if_neg hfull], by simp [hexit, hfull, exitAt]⟩

omit [Preset] in
theorem QueueFollows.le {E n qe qc qe' qc' limit : Nat} (h : QueueFollows (E, n) (qe, qc))
    (hq : (qe', qc') = if limit ≤ qc then (qe + 1, 1) else (qe, qc + 1)) : E ≤ qe' := by
  split at hq <;> obtain ⟨rfl, rfl⟩ := Prod.mk.inj hq <;>
    rcases h with h | h <;> obtain ⟨rfl, rfl⟩ := Prod.mk.inj h <;> omega

omit [Preset] in
theorem isActiveValidator_exitAt {epoch exitEpoch : Nat} (hexit : validator.exitEpoch = FAR_FUTURE_EPOCH)
    (hlt : epoch < exitEpoch) :
    isActiveValidator (exitAt config validator exitEpoch) epoch =
      isActiveValidator validator epoch := by
  have hbefore : ((epoch : Nat) : WithTop Nat) < (exitEpoch : Nat) := by exact_mod_cast hlt
  have hever : ((epoch : Nat) : WithTop Nat) < FAR_FUTURE_EPOCH := WithTop.coe_lt_top _
  unfold isActiveValidator exitAt
  dsimp only
  rw [hexit, decide_eq_true hbefore, decide_eq_true hever]

end

/-! ## Steps -/

/-- `CachedBeaconState` with the rewards of its cache. -/
structure RewardedState extends CachedBeaconState (List Nat) where
  rewards : CachedRewards

/-- Who is active in an epoch that no activation and no exit can reach any more. -/
def SameActivity (currentEpoch : Nat) (validators validators' : List Validator) : Prop :=
  ∀ epoch < computeActivationExitEpoch currentEpoch,
    validators'.map (isActiveValidator · epoch) = validators.map (isActiveValidator · epoch)

/-- What blocks and the epoch transition do to the validators there are. -/
inductive RegistryStep : CachedBeaconState (List Nat) → CachedBeaconState (List Nat) → Prop
  /-- A slashing, a voluntary exit or an ejection. -/
  | exit (state : CachedBeaconState (List Nat)) (index : Nat) :
      RegistryStep state (state.initiateValidatorExit index)
  /-- Everything else within an epoch: slots, activations, slashed validators, balances. -/
  | other (state state' : CachedBeaconState (List Nat)) (hconfig : state'.config = state.config)
      (hslot : computeEpochAtSlot state'.slot = computeEpochAtSlot state.slot)
      (hctx : state'.epochCtx = state.epochCtx)
      (hexit : state'.validators.map (·.exitEpoch) = state.validators.map (·.exitEpoch))
      (hbalance : state'.validators.map (·.effectiveBalance) =
        state.validators.map (·.effectiveBalance))
      (hactive : SameActivity (computeEpochAtSlot state.slot) state.validators state'.validators) :
      RegistryStep state state'

theorem RegistryStep.slot (state : CachedBeaconState (List Nat)) {slot : Nat}
    (hslot : computeEpochAtSlot slot = computeEpochAtSlot state.slot) :
    RegistryStep state { state with slot } :=
  .other state _ rfl hslot rfl rfl rfl fun _ _ => rfl

/-- `EpochContext.effectiveBalanceIncrementsSet`, of an array no other state has. -/
def effectiveBalanceIncrementsSet (effectiveBalanceIncrements : List Nat)
    (index effectiveBalance : Nat) : List Nat :=
  let increments := effectiveBalance / EFFECTIVE_BALANCE_INCREMENT % 2 ^ 8
  if effectiveBalanceIncrements.length ≤ index then
    let extended := getEffectiveBalanceIncrementsWithLen (index + 1)
    (effectiveBalanceIncrements ++ extended.drop effectiveBalanceIncrements.length).set index
      increments
  else effectiveBalanceIncrements.set index increments

/-- A validator that a deposit adds. -/
def addValidator (state : CachedBeaconState (List Nat)) (validator : Validator) (balance : Nat) :
    CachedBeaconState (List Nat) :=
  { state with
    validators := state.validators ++ [validator]
    balanceList := state.balanceList ++ [balance]
    epochCtx := { state.epochCtx with
      effectiveBalanceIncrements := effectiveBalanceIncrementsSet
        state.epochCtx.effectiveBalanceIncrements state.validators.length
        validator.effectiveBalance } }

/-- The end of an epoch transition: the effective balances, then the slot and the cache. -/
def finishEpoch (state : RewardedState) (epochProcess : EpochProcess) : RewardedState :=
  let (postState, epochProcess) := processEffectiveBalanceUpdates state.toCachedBeaconState epochProcess
  let slot := postState.slot + 1
  let epochCtx := postState.epochCtx.afterProcessEpoch postState.config slot epochProcess.toNextEpoch
  { postState with
    slot
    epochCtx
    rewards :=
      if postState.config.ALTAIR_FORK_EPOCH ≤ epochCtx.currentShuffling.epoch then
        .ofTotal epochCtx.totalActiveBalanceIncrements
      else state.rewards }

/-- A step of the state transition; `allowed` is asked of the state and the balances from which an
epoch is finished. -/
inductive CacheStep (allowed : CachedBeaconState (List Nat) → List Nat → Prop) :
    RewardedState → RewardedState → Prop
  | registry (state : RewardedState) (next : CachedBeaconState (List Nat))
      (hstep : RegistryStep state.toCachedBeaconState next) :
      CacheStep allowed state { state with toCachedBeaconState := next }
  | deposit (state : RewardedState) (validator : Validator) (balance : Nat)
      (hactivation : validator.activationEpoch = FAR_FUTURE_EPOCH)
      (hexit : validator.exitEpoch = FAR_FUTURE_EPOCH) :
      CacheStep allowed state
        { state with toCachedBeaconState := addValidator state.toCachedBeaconState validator balance }
  /-- An epoch transition: what is computed up front, the steps of the registry, and the rest. -/
  | epoch (state : RewardedState) (next : CachedBeaconState (List Nat)) (epochProcess : EpochProcess)
      (withAttestations : List IAttesterStatus → Except String (List IAttesterStatus))
      (balances : Option (List Nat))
      (hbefore : beforeProcessEpoch state.toCachedBeaconState withAttestations = .ok epochProcess)
      (hsteps : Relation.ReflTransGen RegistryStep state.toCachedBeaconState next)
      (hslot : (next.slot + 1) % SLOTS_PER_EPOCH = 0)
      (hbalances : (balances.getD next.balanceList).length = next.validators.length)
      (hallowed : allowed next (balances.getD next.balanceList)) :
      CacheStep allowed state
        (finishEpoch { state with toCachedBeaconState := next } { epochProcess with balances })
  /-- The upgrade of a state at a fork, which makes its cache anew. -/
  | upgrade (state : RewardedState) (epochCtx : EpochContext)
      (hctx : createFromState state.config state.slot state.validators = .ok epochCtx) :
      CacheStep allowed state
        { state with
          epochCtx
          rewards := .ofTotal epochCtx.totalActiveBalanceIncrements }

/-- A state whose cache `createFromState` has just made, with its rewards. -/
def RewardedState.Created (state : RewardedState) : Prop :=
  StateTransition.Created state.toCachedBeaconState ∧
    state.rewards = .ofTotal state.epochCtx.totalActiveBalanceIncrements

/-! ## The cache follows the registry -/

/-- What holds of every state of a run. -/
structure CacheInv (state : CachedBeaconState (List Nat)) : Prop where
  current : state.epochCtx.currentShuffling = ⟨computeEpochAtSlot state.slot,
    getActiveValidatorIndices state.validators (computeEpochAtSlot state.slot)⟩
  next : state.epochCtx.nextShuffling = ⟨computeEpochAtSlot state.slot + 1,
    getActiveValidatorIndices state.validators (computeEpochAtSlot state.slot + 1)⟩
  churnLimit : state.epochCtx.churnLimit = getChurnLimit state.config
    (getActiveValidatorIndices state.validators (computeEpochAtSlot state.slot)).length
  queue : QueueFollows
    (exitQueue (computeActivationExitEpoch (computeEpochAtSlot state.slot))
      (exitEpochs state.validators))
    (state.epochCtx.exitQueueEpoch, state.epochCtx.exitQueueChurn)
  agree : IncrementsAgree state.validators state.epochCtx.effectiveBalanceIncrements

/-- What a step within an epoch leaves as it was. -/
structure RegistryFrame (state state' : CachedBeaconState (List Nat)) : Prop where
  config : state'.config = state.config
  epoch : computeEpochAtSlot state'.slot = computeEpochAtSlot state.slot
  active : SameActivity (computeEpochAtSlot state.slot) state.validators state'.validators
  increments : state'.validators.map effectiveIncrements = state.validators.map effectiveIncrements
  total : state'.epochCtx.totalActiveBalanceIncrements = state.epochCtx.totalActiveBalanceIncrements

namespace CacheInv

variable {state state' : CachedBeaconState (List Nat)}

theorem of_created (h : Created state) : CacheInv state := by
  obtain ⟨hcurrent, hnext, hchurn, hagree, -⟩ := createFromState_ok h
  exact ⟨hcurrent, hnext, hchurn, (ExitQueueInv.of_created h).queue, hagree⟩

theorem of_frame (h : CacheInv state) (hframe : RegistryFrame state state')
    (hcurrent : state'.epochCtx.currentShuffling = state.epochCtx.currentShuffling)
    (hnext : state'.epochCtx.nextShuffling = state.epochCtx.nextShuffling)
    (hchurn : state'.epochCtx.churnLimit = state.epochCtx.churnLimit)
    (hincrements : state'.epochCtx.effectiveBalanceIncrements =
      state.epochCtx.effectiveBalanceIncrements)
    (hqueue : QueueFollows
      (exitQueue (computeActivationExitEpoch (computeEpochAtSlot state.slot))
        (exitEpochs state'.validators))
      (state'.epochCtx.exitQueueEpoch, state'.epochCtx.exitQueueChurn)) : CacheInv state' := by
  have hactive (epoch : Nat) (hlt : epoch ≤ computeEpochAtSlot state.slot + 1) :
      getActiveValidatorIndices state'.validators epoch =
        getActiveValidatorIndices state.validators epoch := by
    refine getActiveValidatorIndices_congr (hframe.active epoch ?_)
    have hseed := Preset.MAX_SEED_LOOKAHEAD_gt
    unfold computeActivationExitEpoch
    omega
  refine ⟨?_, ?_, ?_, ?_, ?_⟩
  · rw [hcurrent, h.current, hframe.epoch, hactive _ (Nat.le_succ _)]
  · rw [hnext, h.next, hframe.epoch, hactive _ (le_refl _)]
  · rw [hchurn, h.churnLimit, hframe.epoch, hframe.config, hactive _ (Nat.le_succ _)]
  · rw [hframe.epoch]
    exact hqueue
  · rw [hincrements]
    intro i validator' hvalidator'
    have hi := congrArg (fun l => l[i]?) hframe.increments
    simp only [List.getElem?_map, hvalidator', Option.map_some] at hi
    obtain ⟨validator, hvalidator, heq⟩ := Option.map_eq_some_iff.1 hi.symm
    rw [h.agree i validator hvalidator, heq]

theorem exit (h : CacheInv state) (index : Nat) :
    CacheInv (state.initiateValidatorExit index) ∧
      RegistryFrame state (state.initiateValidatorExit index) := by
  cases hvalidator : state.validators[index]? with
  | none =>
    unfold CachedBeaconState.initiateValidatorExit
    rw [hvalidator]
    exact ⟨h, rfl, rfl, fun _ _ => rfl, rfl, rfl⟩
  | some validator =>
    by_cases hexit : validator.exitEpoch = FAR_FUTURE_EPOCH
    · obtain ⟨qe, qc, hq, hstate⟩ := CachedBeaconState.initiateValidatorExit_eq hvalidator hexit
      have hqueue := h.queue.exit hq
      have hlast : computeActivationExitEpoch (computeEpochAtSlot state.slot) ≤ qe :=
        (le_foldl_max (exitEpochs state.validators) _).trans (h.queue.le hq)
      have hexits : (exitEpochs (state.validators.set index (exitAt state.config validator qe))).Perm
          (qe :: exitEpochs state.validators) := exitEpochs_set hvalidator hexit rfl
      rw [← exitQueue_perm _ hexits] at hqueue
      have hframe : RegistryFrame state (state.initiateValidatorExit index) := by
        rw [hstate]
        refine ⟨rfl, rfl, fun epoch hlt => ?_, map_set_of_eq hvalidator rfl, rfl⟩
        exact map_set_of_eq hvalidator (isActiveValidator_exitAt hexit (hlt.trans_le hlast))
      refine ⟨h.of_frame hframe ?_ ?_ ?_ ?_ ?_, hframe⟩ <;> rw [hstate]
      exact .inl hqueue
    · have hsame : state.initiateValidatorExit index = state := by
        unfold CachedBeaconState.initiateValidatorExit StateTransition.initiateValidatorExit
        rw [hvalidator]
        simp only [if_pos hexit, set_eq_self hvalidator]
      rw [hsame]
      exact ⟨h, rfl, rfl, fun _ _ => rfl, rfl, rfl⟩

theorem registryStep (h : CacheInv state) (hstep : RegistryStep state state') :
    CacheInv state' ∧ RegistryFrame state state' := by
  cases hstep with
  | exit index => exact h.exit index
  | other _ hconfig hslot hctx hexit hbalance hactive =>
    have hmap (vs : List Validator) : vs.map effectiveIncrements =
        (vs.map (·.effectiveBalance)).map (· / EFFECTIVE_BALANCE_INCREMENT % 2 ^ 8) := by
      rw [List.map_map]
      rfl
    have hframe : RegistryFrame state state' :=
      ⟨hconfig, hslot, hactive, by rw [hmap, hmap, hbalance], by rw [hctx]⟩
    refine ⟨h.of_frame hframe ?_ ?_ ?_ ?_ ?_, hframe⟩ <;> rw [hctx]
    rw [exitEpochs_eq_of_map hexit]
    exact h.queue

theorem registrySteps (h : CacheInv state) (hsteps : Relation.ReflTransGen RegistryStep state state') :
    CacheInv state' ∧ RegistryFrame state state' := by
  induction hsteps with
  | refl => exact ⟨h, rfl, rfl, fun _ _ => rfl, rfl, rfl⟩
  | tail _ hstep ih =>
    obtain ⟨hinv, hframe⟩ := ih
    obtain ⟨hinv', hframe'⟩ := hinv.registryStep hstep
    refine ⟨hinv', hframe'.config.trans hframe.config, hframe'.epoch.trans hframe.epoch, ?_,
      hframe'.increments.trans hframe.increments, hframe'.total.trans hframe.total⟩
    intro epoch hlt
    exact (hframe'.active epoch (hframe.epoch ▸ hlt)).trans (hframe.active epoch hlt)

omit [Preset] in
theorem isActiveValidator_farFuture {validator : Validator}
    (hactivation : validator.activationEpoch = FAR_FUTURE_EPOCH) (epoch : Nat) :
    isActiveValidator validator epoch = false := by
  unfold isActiveValidator
  rw [hactivation, decide_eq_false (not_le_of_gt (WithTop.coe_lt_top _)), Bool.false_and]

theorem incrementsAgree_set {validators : List Validator} {increments : List Nat}
    (h : IncrementsAgree validators increments) (validator : Validator) :
    IncrementsAgree (validators ++ [validator])
      (effectiveBalanceIncrementsSet increments validators.length validator.effectiveBalance) := by
  intro i other hother
  have hlookup (extended : List Nat) (hlength : validators.length < extended.length)
      (hold : ∀ j < validators.length, extended[j]? = increments[j]?) :
      (extended.set validators.length (effectiveIncrements validator))[i]? =
        some (effectiveIncrements other) := by
    by_cases heq : validators.length = i
    · subst heq
      rw [List.getElem?_concat_length] at hother
      rw [List.getElem?_set_self hlength, Option.some.inj hother]
    · have hlt : i < validators.length := by
        have hle := (List.getElem?_eq_some_iff.1 hother).1
        rw [List.length_append, List.length_singleton] at hle
        omega
      rw [List.getElem?_append_left hlt] at hother
      rw [List.getElem?_set_ne heq, hold i hlt, h i other hother]
  have hle : validators.length ≤ increments.length := by
    by_contra hshort
    have hlt : increments.length < validators.length := Nat.lt_of_not_le hshort
    have hnone := h increments.length _ (List.getElem?_eq_getElem hlt)
    simp at hnone
  unfold effectiveBalanceIncrementsSet
  dsimp only
  split
  next hfull =>
    refine hlookup _ ?_ fun j hj => List.getElem?_append_left (hj.trans_le hle)
    unfold getEffectiveBalanceIncrementsWithLen
    rw [List.length_append, List.length_drop, List.length_replicate]
    omega
  next hroom => exact hlookup _ (by omega) fun _ _ => rfl

theorem deposit (h : CacheInv state) {validator : Validator} (balance : Nat)
    (hactivation : validator.activationEpoch = FAR_FUTURE_EPOCH)
    (hexit : validator.exitEpoch = FAR_FUTURE_EPOCH) :
    CacheInv (addValidator state validator balance) := by
  have hactive (epoch : Nat) : getActiveValidatorIndices (state.validators ++ [validator]) epoch =
      getActiveValidatorIndices state.validators epoch := by
    rw [getActiveValidatorIndices_concat, isActiveValidator_farFuture hactivation,
      if_neg Bool.false_ne_true]
  refine ⟨?_, ?_, ?_, ?_, incrementsAgree_set h.agree validator⟩
  · rw [addValidator, hactive]
    exact h.current
  · rw [addValidator, hactive]
    exact h.next
  · rw [addValidator, hactive]
    exact h.churnLimit
  · rw [addValidator, exitEpochs_concat, hexit]
    simpa using h.queue

end CacheInv

/-! ## The end of an epoch -/

theorem map_updatedBelow {γ : Type} {f : Validator → γ}
    (h : ∀ validator balance, f (withEffectiveBalance validator balance) = f validator) (k : Nat)
    (balances : List Nat) (validators : List Validator) :
    (updatedBelow k balances validators).map f = validators.map f := by
  refine List.ext_getElem? fun i => ?_
  rw [List.getElem?_map, List.getElem?_map, getElem?_updatedBelow, Option.map_map]
  congr 1
  funext validator
  show f (if i < k then _ else validator) = f validator
  split
  · exact h _ _
  · rfl

theorem beforeProcessEpoch_next {state : CachedBeaconState (List Nat)}
    {withAttestations : List IAttesterStatus → Except String (List IAttesterStatus)}
    {process : EpochProcess} (h : beforeProcessEpoch state withAttestations = .ok process) :
    process.nextEpochShufflingActiveValidatorIndices =
        getActiveValidatorIndices state.validators (state.epochCtx.currentShuffling.epoch + 2) ∧
      process.isActiveNextEpoch = state.validators.map fun validator =>
        isActiveValidator validator (state.epochCtx.currentShuffling.epoch + 1) := by
  unfold beforeProcessEpoch at h
  dsimp only at h
  split at h
  · cases h
  · obtain ⟨statuses, -, hret⟩ := eq_ok_of_bind h
    cases hret
    exact ⟨rfl, rfl⟩

theorem sum_nextIncrements {isActiveNextEpoch : List Bool} {validators : List Validator} {epoch : Nat}
    (h : isActiveNextEpoch = validators.map (isActiveValidator · epoch)) :
    ((List.range validators.length).map (nextIncrements isActiveNextEpoch validators)).sum =
      activeTotal epoch validators := by
  unfold activeTotal
  refine congrArg List.sum (List.ext_getElem? fun i => ?_)
  rw [List.getElem?_map, List.getElem?_map]
  cases hvalidator : validators[i]? with
  | none =>
    have hle := List.getElem?_eq_none_iff.1 hvalidator
    rw [List.getElem?_eq_none (by rwa [List.length_range])]
    rfl
  | some validator =>
    have hlt := (List.getElem?_eq_some_iff.1 hvalidator).1
    rw [List.getElem?_range hlt, Option.map_some, Option.map_some]
    unfold nextIncrements
    rw [h, List.getD_eq_getElem?_getD, List.getElem?_map, hvalidator]
    rfl

/-- What the end of an epoch leaves. -/
structure EpochFinished (state : RewardedState) (balances : List Nat) (state' : RewardedState) :
    Prop where
  inv : CacheInv state'.toCachedBeaconState
  config : state'.config = state.config
  epoch : computeEpochAtSlot state'.slot = computeEpochAtSlot state.slot + 1
  validators : state'.validators = updatedBelow balances.length balances state.validators
  total : state'.epochCtx.totalActiveBalanceIncrements =
    activeTotal (computeEpochAtSlot state'.slot) state'.validators
  rewards : state'.config.ALTAIR_FORK_EPOCH ≤ computeEpochAtSlot state'.slot →
    state'.rewards = .ofTotal state'.epochCtx.totalActiveBalanceIncrements

theorem epochFinished {state : RewardedState} (h : CacheInv state.toCachedBeaconState)
    {epochProcess : EpochProcess}
    (hnext : epochProcess.nextEpochShufflingActiveValidatorIndices =
      getActiveValidatorIndices state.validators (computeEpochAtSlot state.slot + 2))
    (hactive : epochProcess.isActiveNextEpoch = state.validators.map
      (isActiveValidator · (computeEpochAtSlot state.slot + 1)))
    (hslot : (state.slot + 1) % SLOTS_PER_EPOCH = 0) {balances : List Nat}
    (hbalances : epochProcess.balances.getD state.balanceList = balances)
    (hlength : balances.length = state.validators.length) :
    EpochFinished state balances (finishEpoch state epochProcess) := by
  have hepoch := computeEpochAtSlot_succ hslot
  have hloop : LoopDone epochProcess.isActiveNextEpoch balances state.validators _ :=
    foldl_updateEffectiveBalance h.agree balances hlength.le
  unfold finishEpoch processEffectiveBalanceUpdates
  dsimp only
  rw [hbalances]
  generalize balances.zipIdx.foldl (updateEffectiveBalance epochProcess.isActiveNextEpoch) _ = loop
    at hloop
  obtain ⟨hvalidators, hagree, htotal⟩ := hloop
  have hactivity (epoch : Nat) : getActiveValidatorIndices loop.validators epoch =
      getActiveValidatorIndices state.validators epoch := by
    rw [hvalidators]
    exact getActiveValidatorIndices_congr
      (map_updatedBelow (fun _ _ => isActiveValidator_withEffectiveBalance _ _ _) _ _ _)
  have hexits : exitEpochs loop.validators = exitEpochs state.validators := by
    refine exitEpochs_eq_of_map ?_
    rw [hvalidators, map_updatedBelow (fun _ _ => withEffectiveBalance_exitEpoch _ _)]
  have hcounted : ((List.range balances.length).map
        (nextIncrements epochProcess.isActiveNextEpoch loop.validators)).sum =
      activeTotal (computeEpochAtSlot state.slot + 1) loop.validators := by
    have hsize : balances.length = loop.validators.length := by
      rw [hvalidators, updatedBelow, List.length_mapIdx, hlength]
    rw [hsize]
    refine sum_nextIncrements ?_
    rw [hactive, hvalidators]
    exact (map_updatedBelow (fun _ _ => isActiveValidator_withEffectiveBalance _ _ _) _ _ _).symm
  refine ⟨⟨?_, ?_, ?_, ?_, hagree⟩, rfl, hepoch, hvalidators, ?_, ?_⟩
  · show state.epochCtx.nextShuffling = _
    rw [h.next, hepoch, hactivity]
  · show (⟨state.epochCtx.nextShuffling.epoch + 1, _⟩ : IEpochShuffling) = _
    rw [h.next, hepoch, hactivity, hnext]
  · show getChurnLimit state.config state.epochCtx.nextShuffling.activeIndices.length = _
    rw [h.next, hepoch, hactivity]
  · show QueueFollows (exitQueue (computeActivationExitEpoch (computeEpochAtSlot (state.slot + 1)))
      (exitEpochs loop.validators))
      (if state.epochCtx.exitQueueEpoch <
          computeActivationExitEpoch state.epochCtx.nextShuffling.epoch then _ else _,
        if state.epochCtx.exitQueueEpoch <
          computeActivationExitEpoch state.epochCtx.nextShuffling.epoch then _ else _)
    rw [h.next, hepoch, hexits, computeActivationExitEpoch_succ]
    exact h.queue.epoch
  · show loop.nextEpochTotalActiveBalanceByIncrement = _
    rw [htotal, hcounted, hepoch]
  · intro hfork
    show (if state.config.ALTAIR_FORK_EPOCH ≤ state.epochCtx.nextShuffling.epoch then _ else _) = _
    refine if_pos ?_
    rw [h.next, ← hepoch]
    exact hfork

theorem epochFinished_of_before {state : RewardedState} {next : CachedBeaconState (List Nat)}
    (h : CacheInv state.toCachedBeaconState) {epochProcess : EpochProcess}
    {withAttestations : List IAttesterStatus → Except String (List IAttesterStatus)}
    {balances : Option (List Nat)}
    (hbefore : beforeProcessEpoch state.toCachedBeaconState withAttestations = .ok epochProcess)
    (hsteps : Relation.ReflTransGen RegistryStep state.toCachedBeaconState next)
    (hslot : (next.slot + 1) % SLOTS_PER_EPOCH = 0)
    (hbalances : (balances.getD next.balanceList).length = next.validators.length) :
    EpochFinished { state with toCachedBeaconState := next } (balances.getD next.balanceList)
      (finishEpoch { state with toCachedBeaconState := next } { epochProcess with balances }) := by
  obtain ⟨hnext, hactive⟩ := beforeProcessEpoch_next hbefore
  obtain ⟨hinv, hframe⟩ := h.registrySteps hsteps
  have hseed := Preset.MAX_SEED_LOOKAHEAD_gt
  rw [h.current] at hnext hactive
  refine epochFinished hinv ?_ ?_ hslot rfl hbalances
  · dsimp only at hnext ⊢
    rw [hnext, hframe.epoch]
    refine (getActiveValidatorIndices_congr (hframe.active _ ?_)).symm
    unfold computeActivationExitEpoch
    omega
  · dsimp only at hactive ⊢
    rw [hactive, hframe.epoch]
    refine (hframe.active _ ?_).symm
    unfold computeActivationExitEpoch
    omega

/-- What a step does to the cache. -/
theorem CacheInv.step {allowed : CachedBeaconState (List Nat) → List Nat → Prop}
    {state state' : RewardedState} (h : CacheInv state.toCachedBeaconState)
    (hstep : CacheStep allowed state state') : CacheInv state'.toCachedBeaconState := by
  cases hstep with
  | registry next hstep => exact (h.registryStep hstep).1
  | deposit validator balance hactivation hexit => exact h.deposit balance hactivation hexit
  | epoch next epochProcess withAttestations balances hbefore hsteps hslot hbalances hallowed =>
    exact (epochFinished_of_before h hbefore hsteps hslot hbalances).inv
  | upgrade epochCtx hctx => exact .of_created hctx

theorem CacheInv.run {allowed : CachedBeaconState (List Nat) → List Nat → Prop}
    {state state' : RewardedState} (h : CacheInv state.toCachedBeaconState)
    (hrun : Relation.ReflTransGen (CacheStep allowed) state state') :
    CacheInv state'.toCachedBeaconState := by
  induction hrun with
  | refl => exact h
  | tail _ hstep ih => exact ih.step hstep

/-! ## The total of the next epoch -/

/-- A validator that is active in the next epoch has an increment there. -/
def Funded (state : CachedBeaconState (List Nat)) (balances : List Nat) : Prop :=
  ∃ (i : Nat) (validator : Validator) (balance : Nat), state.validators[i]? = some validator ∧
    isActiveValidator validator (computeEpochAtSlot state.slot + 1) = true ∧
    balances[i]? = some balance ∧ isFunded validator balance = true

theorem activeTotal_pos_iff (epoch : Nat) (validators : List Validator) :
    0 < activeTotal epoch validators ↔ ∃ (i : Nat) (validator : Validator),
      validators[i]? = some validator ∧ isActiveValidator validator epoch = true ∧
        0 < effectiveIncrements validator := by
  unfold activeTotal
  rw [List.sum_pos_iff_exists_pos_nat]
  constructor
  · rintro ⟨x, hmem, hpos⟩
    obtain ⟨validator, hvalidator, rfl⟩ := List.mem_map.1 hmem
    obtain ⟨i, hi⟩ := List.getElem?_of_mem hvalidator
    split at hpos
    next hactive => exact ⟨i, validator, hi, hactive, hpos⟩
    next => cases hpos
  · rintro ⟨i, validator, hi, hactive, hpos⟩
    refine ⟨_, List.mem_map.2 ⟨validator, List.mem_of_getElem? hi, rfl⟩, ?_⟩
    rw [if_pos hactive]
    exact hpos

/-- The total of the next epoch is at least one increment if and only if someone has one. -/
theorem activeTotal_updated_pos_iff {state : CachedBeaconState (List Nat)} {balances : List Nat}
    (hlength : balances.length = state.validators.length) :
    0 < activeTotal (computeEpochAtSlot state.slot + 1)
        (updatedBelow balances.length balances state.validators) ↔ Funded state balances := by
  rw [activeTotal_pos_iff]
  constructor
  · rintro ⟨i, updated, hupdated, hactive, hpos⟩
    rw [getElem?_updatedBelow, Option.map_eq_some_iff] at hupdated
    obtain ⟨validator, hvalidator, rfl⟩ := hupdated
    have hlt : i < balances.length := hlength ▸ (List.getElem?_eq_some_iff.1 hvalidator).1
    rw [if_pos hlt] at hactive hpos
    rw [isActiveValidator_withEffectiveBalance] at hactive
    refine ⟨i, validator, balances.getD i 0, hvalidator, hactive, ?_,
      (effectiveIncrements_pos_iff _ _).1 hpos⟩
    rw [List.getD_eq_getElem?_getD, List.getElem?_eq_getElem hlt]
    rfl
  · rintro ⟨i, validator, balance, hvalidator, hactive, hbalance, hfunded⟩
    have hlt := (List.getElem?_eq_some_iff.1 hbalance).1
    have hgetD : balances.getD i 0 = balance := by
      rw [List.getD_eq_getElem?_getD, hbalance, Option.getD_some]
    refine ⟨i, withEffectiveBalance validator balance, ?_, ?_, ?_⟩
    · rw [getElem?_updatedBelow, hvalidator, Option.map_some, if_pos hlt, hgetD]
    · rw [isActiveValidator_withEffectiveBalance]
      exact hactive
    · exact (effectiveIncrements_pos_iff _ _).2 hfunded

theorem activeTotal_congr {epoch : Nat} {validators validators' : List Validator}
    (hactive : validators'.map (isActiveValidator · epoch) =
      validators.map (isActiveValidator · epoch))
    (hincrements : validators'.map effectiveIncrements = validators.map effectiveIncrements) :
    activeTotal epoch validators' = activeTotal epoch validators := by
  have hzip (vs : List Validator) : activeTotal epoch vs =
      (List.zipWith (fun active increments => if active then increments else 0)
        (vs.map (isActiveValidator · epoch)) (vs.map effectiveIncrements)).sum := by
    unfold activeTotal
    rw [List.zipWith_map, List.zipWith_self]
  rw [hzip, hzip, hactive, hincrements]

/-- The total has its floor, and from altair on the rewards are of the total. -/
structure TotalInv (state : RewardedState) : Prop extends CacheInv state.toCachedBeaconState where
  total : state.epochCtx.totalActiveBalanceIncrements =
    max 1 (activeTotal (computeEpochAtSlot state.slot) state.validators)
  rewards : state.config.ALTAIR_FORK_EPOCH ≤ computeEpochAtSlot state.slot →
    state.rewards = .ofTotal state.epochCtx.totalActiveBalanceIncrements

namespace TotalInv

variable {state state' : RewardedState}

theorem of_created (h : state.Created) : TotalInv state := by
  obtain ⟨hcreated, hrewards⟩ := h
  obtain ⟨-, -, -, -, htotal⟩ := createFromState_ok hcreated
  exact ⟨.of_created hcreated, htotal, fun _ => hrewards⟩

theorem step (h : TotalInv state) (hstep : CacheStep Funded state state') : TotalInv state' := by
  have hinv := h.toCacheInv.step hstep
  cases hstep with
  | registry next hstep =>
    obtain ⟨-, hframe⟩ := h.registryStep hstep
    have hnow : computeEpochAtSlot state.slot <
        computeActivationExitEpoch (computeEpochAtSlot state.slot) := by
      unfold computeActivationExitEpoch
      omega
    refine ⟨hinv, ?_, ?_⟩
    · dsimp only
      rw [hframe.total, hframe.epoch, activeTotal_congr (hframe.active _ hnow) hframe.increments]
      exact h.total
    · dsimp only
      rw [hframe.total, hframe.epoch, hframe.config]
      exact h.rewards
  | deposit validator balance hactivation hexit =>
    refine ⟨hinv, ?_, h.rewards⟩
    show state.epochCtx.totalActiveBalanceIncrements =
      max 1 (activeTotal (computeEpochAtSlot state.slot) (state.validators ++ [validator]))
    rw [activeTotal_concat, CacheInv.isActiveValidator_farFuture hactivation,
      if_neg Bool.false_ne_true]
    exact h.total
  | epoch next epochProcess withAttestations balances hbefore hsteps hslot hbalances hallowed =>
    have hdone := epochFinished_of_before h.toCacheInv hbefore hsteps hslot hbalances
    refine ⟨hinv, ?_, hdone.rewards⟩
    have hpos := (activeTotal_updated_pos_iff hbalances).2 hallowed
    have htotal := hdone.total
    rw [hdone.epoch, hdone.validators] at htotal ⊢
    dsimp only at htotal ⊢
    omega
  | upgrade epochCtx hctx =>
    obtain ⟨-, -, -, -, htotal⟩ := createFromState_ok hctx
    exact ⟨hinv, htotal, fun _ => rfl⟩

theorem run (h : TotalInv state) (hrun : Relation.ReflTransGen (CacheStep Funded) state state') :
    TotalInv state' := by
  induction hrun with
  | refl => exact h
  | tail _ hstep ih => exact ih.step hstep

end TotalInv

/-- In every run whose epochs are all finished with a validator that has an increment in the next,
the total has the specification's floor, and the rewards are numbers and those `createFromState`
computes. -/
theorem total_floored_of_funded {state₀ state : RewardedState} (h₀ : state₀.Created)
    (hrun : Relation.ReflTransGen (CacheStep Funded) state₀ state) :
    1 ≤ state.epochCtx.totalActiveBalanceIncrements ∧
    state.epochCtx.totalActiveBalanceIncrements =
      max 1 (activeTotal (computeEpochAtSlot state.slot) state.validators) ∧
    (state.config.ALTAIR_FORK_EPOCH ≤ computeEpochAtSlot state.slot →
      ∃ syncParticipantReward baseRewardPerIncrement : Nat,
        state.rewards = ⟨.nat syncParticipantReward, .nat baseRewardPerIncrement⟩) ∧
    ∀ epochCtx, createFromState state.config state.slot state.validators = .ok epochCtx →
      epochCtx.totalActiveBalanceIncrements = state.epochCtx.totalActiveBalanceIncrements ∧
      (state.config.ALTAIR_FORK_EPOCH ≤ computeEpochAtSlot state.slot →
        state.rewards = .ofTotal epochCtx.totalActiveBalanceIncrements) ∧
      ∀ withAttestations withAttestations' epochProcess epochProcess',
        beforeProcessEpoch state.toCachedBeaconState withAttestations = .ok epochProcess →
        beforeProcessEpoch { state.toCachedBeaconState with epochCtx } withAttestations' =
          .ok epochProcess' →
        epochProcess'.totalActiveStakeByIncrement = epochProcess.totalActiveStakeByIncrement ∧
        CachedRewards.computeBaseRewardPerIncrement epochProcess.totalActiveStakeByIncrement =
          .nat epochProcess.baseRewardPerIncrement ∧
        epochProcess'.baseRewardPerIncrement = epochProcess.baseRewardPerIncrement := by
  have hinv := (TotalInv.of_created h₀).run hrun
  have hpos : 1 ≤ state.epochCtx.totalActiveBalanceIncrements := by
    rw [hinv.total]
    exact le_max_left _ _
  refine ⟨hpos, hinv.total, fun hfork => ?_, fun epochCtx hctx => ?_⟩
  · obtain ⟨syncParticipantReward, hrewards⟩ := CachedRewards.ofTotal_of_pos hpos
    exact ⟨syncParticipantReward, _, (hinv.rewards hfork).trans hrewards⟩
  · obtain ⟨hcurrent, -, -, -, htotal⟩ := createFromState_ok hctx
    have hsame := htotal.trans hinv.total.symm
    refine ⟨hsame, fun hfork => (hinv.rewards hfork).trans (congrArg _ hsame.symm), ?_⟩
    intro withAttestations withAttestations' epochProcess epochProcess' hbefore hbefore'
    obtain ⟨-, -, -, hstake, hbase, -⟩ := beforeProcessEpoch_ok hbefore
    obtain ⟨-, -, -, hstake', hbase', -⟩ := beforeProcessEpoch_ok hbefore'
    rw [hinv.current] at hstake
    rw [hcurrent] at hstake'
    have hequal := hstake'.trans hstake.symm
    refine ⟨hequal, ?_, by rw [hbase', hbase, hequal]⟩
    rw [hbase]
    refine CachedRewards.computeBaseRewardPerIncrement_of_pos ?_
    rw [hstake]
    exact Nat.lt_of_lt_of_le Nat.zero_lt_one (le_max_left _ _)

end

/-! ## A network with less than an increment -/

local instance smallBalancePreset : Preset := minimal

/-- The last slot of the genesis epoch, with one validator, which has 1 ETH. -/
def smallBalanceState : RewardedState where
  config := { chainConfigMinimal with ALTAIR_FORK_EPOCH := (0 : Nat) }
  slot := 7
  validators := [{
    pubkey := 0
    withdrawalCredentials := 0
    effectiveBalance := 1000000000
    slashed := false
    activationEligibilityEpoch := (0 : Nat)
    activationEpoch := (0 : Nat)
    exitEpoch := FAR_FUTURE_EPOCH
    withdrawableEpoch := FAR_FUTURE_EPOCH }]
  balanceList := [1000000000]
  slashings := List.replicate 64 0
  finalizedCheckpoint := ⟨0, 0⟩
  inactivityScores := [0]
  epochCtx :=
    { previousShuffling := ⟨0, [0]⟩
      currentShuffling := ⟨0, [0]⟩
      nextShuffling := ⟨1, [0]⟩
      effectiveBalanceIncrements := 1 :: List.replicate 1023 0
      totalActiveBalanceIncrements := 1
      churnLimit := 4
      exitQueueEpoch := 5
      exitQueueChurn := 0
      epoch := 0 }
  rewards := .ofTotal 1

theorem smallBalanceState_created : smallBalanceState.Created := by
  refine ⟨?_, rfl⟩
  unfold Created
  decide +kernel

/-- What `beforeProcessEpoch` computes of the state. -/
def smallBalanceProcess : EpochProcess where
  nextEpochShufflingActiveValidatorIndices := [0]
  nextEpochTotalActiveBalanceByIncrement := 0
  prevEpoch := 0
  currentEpoch := 0
  totalActiveStakeByIncrement := 1
  baseRewardPerIncrement := computeBaseRewardPerIncrement 1
  prevEpochUnslashedStake := ⟨1, 1, 1⟩
  currEpochUnslashedTargetStakeByIncrement := 1
  indicesToSlash := []
  indicesEligibleForActivationQueue := []
  indicesEligibleForActivation := []
  indicesToEject := [0]
  isActiveNextEpoch := [true]
  statuses := smallBalanceState.validators.map (validatorStatus 0 0)
  balances := none

theorem smallBalanceState_before :
    beforeProcessEpoch smallBalanceState.toCachedBeaconState .ok = .ok smallBalanceProcess := by
  have hnone : indicesWhere (isEligibleForActivation 0) smallBalanceState.validators = [] := by
    decide +kernel
  have hsorted : (indicesWhere (isEligibleForActivation
      smallBalanceState.epochCtx.currentShuffling.epoch) smallBalanceState.validators).mergeSort
        (activationOrder smallBalanceState.validators) = [] := by
    rw [show smallBalanceState.epochCtx.currentShuffling.epoch = 0 from rfl, hnone]
    exact List.mergeSort_nil
  unfold beforeProcessEpoch
  dsimp only
  rw [hsorted]
  rfl

/-- The state above in epoch 1, its validator ejected and with the balance it is left with. -/
def smallBalanceNext (balance : Nat) : RewardedState :=
  finishEpoch
    { smallBalanceState with
      toCachedBeaconState := smallBalanceState.toCachedBeaconState.initiateValidatorExit 0 }
    { smallBalanceProcess with balances := some [balance] }

theorem smallBalanceNext_step {allowed : CachedBeaconState (List Nat) → List Nat → Prop}
    {balance : Nat}
    (hallowed : allowed (smallBalanceState.toCachedBeaconState.initiateValidatorExit 0) [balance]) :
    Relation.ReflTransGen (CacheStep allowed) smallBalanceState (smallBalanceNext balance) :=
  .single (.epoch smallBalanceState _ smallBalanceProcess .ok (some [balance])
    smallBalanceState_before (.single (.exit _ 0)) (by decide) rfl hallowed)

/-- Left with half an increment, the total is zero and the rewards are no numbers. -/
theorem total_zero_smallBalance :
    ∃ state₀ state : RewardedState, state₀.Created ∧
      Relation.ReflTransGen (CacheStep fun _ _ => True) state₀ state ∧
      state.epochCtx.totalActiveBalanceIncrements = 0 ∧
      state.rewards = ⟨.nan, .infinity⟩ :=
  ⟨smallBalanceState, smallBalanceNext 500000000, smallBalanceState_created,
    smallBalanceNext_step trivial, by decide +kernel, by decide +kernel⟩

/-- Left with three quarters, it keeps its effective balance. -/
theorem total_floored_smallBalance :
    1 ≤ (smallBalanceNext 750000000).epochCtx.totalActiveBalanceIncrements :=
  (total_floored_of_funded smallBalanceState_created
    (smallBalanceNext_step ⟨0, _, 750000000, rfl, by decide, rfl, by decide⟩)).1

end Lodestar.StateTransition

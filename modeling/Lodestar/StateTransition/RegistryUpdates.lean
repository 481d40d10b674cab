import Lodestar.StateTransition.CacheRuns
import Lodestar.StateTransition.JustificationAndFinalization

/-!
# Registry updates

`allForks/epoch/processRegistryUpdates.ts` on the lists of `beforeProcessEpoch`,
and `process_registry_updates` of the specification on the registry. The lists
are made before justification; what the steps between change is the finalized
epoch alone.
-/

namespace Lodestar.StateTransition

open Lodestar.Base

section

variable [Preset] {β : Type}

/-! ## processRegistryUpdates -/

/-- The loop over the activations, up to its `break`. -/
def processActivations (finalityEpoch activationEpoch : Nat) :
    List Nat → List Validator → List Validator
  | [], validators => validators
  | index :: indices, validators =>
    match validators[index]? with
    | some validator =>
      if (finalityEpoch : WithTop Nat) < validator.activationEligibilityEpoch then validators
      else processActivations finalityEpoch activationEpoch indices
        (validators.modify index fun validator =>
          { validator with activationEpoch := (activationEpoch : Nat) })
    | none => validators

def setEligible (currentEpoch : Nat) (validator : Validator) : Validator :=
  { validator with activationEligibilityEpoch := (currentEpoch + 1 : Nat) }

def processRegistryUpdates (state : CachedBeaconState β) (epochProcess : EpochProcess) :
    CachedBeaconState β :=
  -- process ejections
  let state := epochProcess.indicesToEject.foldl CachedBeaconState.initiateValidatorExit state
  -- set new activation eligibilities
  let validators := modifyAt epochProcess.indicesEligibleForActivationQueue
    (setEligible state.epochCtx.currentShuffling.epoch) state.validators
  let finalityEpoch := state.finalizedCheckpoint.epoch
  -- dequeue validators for activation up to churn limit
  let validators := processActivations finalityEpoch
    (computeActivationExitEpoch epochProcess.currentEpoch)
    (epochProcess.indicesEligibleForActivation.take state.epochCtx.churnLimit) validators
  { state with validators }

/-! ## The specification -/

section

variable (config : ChainConfig) (currentEpoch : Nat)

/-- `get_validator_churn_limit`. -/
def specChurnLimit (validators : List Validator) : Nat :=
  getChurnLimit config (getActiveValidatorIndices validators currentEpoch).length

/-- `initiate_validator_exit`. -/
def specInitiateValidatorExit (validators : List Validator) (index : Nat) : List Validator :=
  match validators[index]? with
  | none => validators
  | some validator =>
    if validator.exitEpoch ≠ FAR_FUTURE_EPOCH then validators
    else
      let exitQueueEpoch :=
        specExitEpoch currentEpoch (specChurnLimit config currentEpoch validators) validators
      validators.set index
        { validator with
          exitEpoch := (exitQueueEpoch : Nat)
          withdrawableEpoch := (exitQueueEpoch + config.MIN_VALIDATOR_WITHDRAWABILITY_DELAY : Nat) }

/-- `is_active_validator` at an effective balance that is ejected. -/
def specIsToEject (validator : Validator) : Bool :=
  isActiveValidator validator currentEpoch && decide (validator.effectiveBalance ≤ config.EJECTION_BALANCE)

/-- A turn of the first loop. -/
def specUpdateValidator (validators : List Validator) (index : Nat) : List Validator :=
  let validators := validators.modify index fun validator =>
    if isEligibleForActivationQueue validator then setEligible currentEpoch validator else validator
  match validators[index]? with
  | none => validators
  | some validator =>
    if specIsToEject config currentEpoch validator then
      specInitiateValidatorExit config currentEpoch validators index
    else validators

/-- `is_eligible_for_activation`. -/
def specIsEligibleForActivation (finalizedEpoch : Nat) (validator : Validator) : Bool :=
  decide (validator.activationEligibilityEpoch ≤ finalizedEpoch)
    && decide (validator.activationEpoch = FAR_FUTURE_EPOCH)

/-- `process_registry_updates`. -/
def specProcessRegistryUpdates (finalizedEpoch : Nat) (validators : List Validator) :
    List Validator :=
  let validators := (List.range validators.length).foldl (specUpdateValidator config currentEpoch)
    validators
  let activationQueue := (indicesWhere (specIsEligibleForActivation finalizedEpoch) validators).mergeSort
    (activationOrder validators)
  modifyAt (activationQueue.take (specChurnLimit config currentEpoch validators))
    (fun validator =>
      { validator with activationEpoch := (computeActivationExitEpoch currentEpoch : Nat) })
    validators

end

/-! ## One exit -/

section

variable {config : ChainConfig} {currentEpoch : Nat} {validators validators' : List Validator}
  {i : Nat} {validator validator' : Validator}

omit [Preset] in
theorem specChurnLimit_congr (h : validators'.map (isActiveValidator · currentEpoch) =
      validators.map (isActiveValidator · currentEpoch)) :
    specChurnLimit config currentEpoch validators' = specChurnLimit config currentEpoch validators := by
  unfold specChurnLimit
  rw [getActiveValidatorIndices_congr h]

omit [Preset] in
theorem specChurnLimit_set (hvalidator : validators[i]? = some validator)
    (hactive : isActiveValidator validator' currentEpoch = isActiveValidator validator currentEpoch) :
    specChurnLimit config currentEpoch (validators.set i validator') =
      specChurnLimit config currentEpoch validators := by
  exact specChurnLimit_congr (map_set_of_eq hvalidator hactive)

theorem specInitiateValidatorExit_of_ne {j : Nat} (hne : i ≠ j) :
    (specInitiateValidatorExit config currentEpoch validators i)[j]? = validators[j]? := by
  unfold specInitiateValidatorExit
  split
  · rfl
  · split
    · rfl
    · exact List.getElem?_set_ne hne

theorem specInitiateValidatorExit_eq (hvalidator : validators[i]? = some validator)
    (hexit : validator.exitEpoch = FAR_FUTURE_EPOCH) :
    specInitiateValidatorExit config currentEpoch validators i =
      validators.set i (exitAt config validator
        (specExitEpoch currentEpoch (specChurnLimit config currentEpoch validators) validators)) := by
  unfold specInitiateValidatorExit
  rw [hvalidator]
  exact if_neg (not_not.2 hexit)

theorem specInitiateValidatorExit_self (hvalidator : validators[i]? = some validator)
    (hexit : validator.exitEpoch ≠ FAR_FUTURE_EPOCH) :
    specInitiateValidatorExit config currentEpoch validators i = validators := by
  unfold specInitiateValidatorExit
  rw [hvalidator]
  exact if_pos hexit

variable {state state' : CachedBeaconState β}

omit [Preset] in
theorem CachedBeaconState.initiateValidatorExit_of_ne {j : Nat} (hne : i ≠ j) :
    (state.initiateValidatorExit i).validators[j]? = state.validators[j]? := by
  unfold CachedBeaconState.initiateValidatorExit
  split
  · rfl
  · exact List.getElem?_set_ne hne

/-! ## The ejections -/

variable (currentEpoch state) in
/-- The cache has the churn limit and the exit queue of the registry. -/
structure CacheFollows : Prop where
  churnLimit : state.epochCtx.churnLimit = specChurnLimit state.config currentEpoch state.validators
  queue : QueueFollows
    (exitQueue (computeActivationExitEpoch currentEpoch) (exitEpochs state.validators))
    (state.epochCtx.exitQueueEpoch, state.epochCtx.exitQueueChurn)

/-- The first exit is the specification's unless the cache has moved past a queue that has room. -/
def ExitsInTime (currentEpoch : Nat) (state : CachedBeaconState β) : Prop :=
  state.epochCtx.exitQueueEpoch ≤ specExitQueueEpoch currentEpoch state.validators ∨
    0 < state.epochCtx.churnLimit ∧
      state.epochCtx.churnLimit ≤ specExitQueueChurn currentEpoch state.validators

/-- One ejection: the cached queue becomes the registry's, and the registry is the specification's
if and only if the exit was in time. -/
theorem CacheFollows.eject (h : CacheFollows currentEpoch state)
    (hvalidator : state.validators[i]? = some validator)
    (hexit : validator.exitEpoch = FAR_FUTURE_EPOCH) :
    CacheFollows currentEpoch (state.initiateValidatorExit i) ∧
      ExitsInTime currentEpoch (state.initiateValidatorExit i) ∧
      ((state.initiateValidatorExit i).validators[i]?.map (·.exitEpoch) =
          (specInitiateValidatorExit state.config currentEpoch state.validators i)[i]?.map
            (·.exitEpoch) ↔
        ExitsInTime currentEpoch state) ∧
      (ExitsInTime currentEpoch state → (state.initiateValidatorExit i).validators =
        specInitiateValidatorExit state.config currentEpoch state.validators i) := by
  obtain ⟨qe, qc, hq, hstate⟩ := CachedBeaconState.initiateValidatorExit_eq hvalidator hexit
  have hlength := (List.getElem?_eq_some_iff.1 hvalidator).1
  have hle := h.queue.le hq
  have hlast : computeActivationExitEpoch currentEpoch ≤ qe :=
    (le_foldl_max (exitEpochs state.validators) _).trans hle
  have hlt : currentEpoch < qe := by
    unfold computeActivationExitEpoch at hlast
    omega
  have hexits : (exitEpochs (state.validators.set i (exitAt state.config validator qe))).Perm
      (qe :: exitEpochs state.validators) := exitEpochs_set hvalidator hexit rfl
  have hqueue := h.queue.exit hq
  rw [← exitQueue_perm _ hexits] at hqueue
  have hassigned : qe = specExitEpoch currentEpoch (specChurnLimit state.config currentEpoch
      state.validators) state.validators ↔ ExitsInTime currentEpoch state := by
    rw [← h.churnLimit]
    exact h.queue.assigned_iff hq
  rw [hstate, specInitiateValidatorExit_eq hvalidator hexit]
  refine ⟨⟨?_, .inl hqueue⟩, .inl ?_, ?_, fun hintime => ?_⟩
  · rw [specChurnLimit_set hvalidator (isActiveValidator_exitAt hexit hlt)]
    exact h.churnLimit
  · exact le_of_eq (congrArg Prod.fst hqueue)
  · rw [← hassigned, List.getElem?_set_self hlength, List.getElem?_set_self hlength]
    constructor
    · intro heq
      exact WithTop.coe_injective (Option.some.inj heq)
    · intro heq
      rw [← heq]
  · rw [← hassigned.2 hintime]

/-! ## All ejections -/

variable {indices : List Nat}

theorem foldl_specInitiateValidatorExit_of_notMem (hmem : i ∉ indices) :
    (indices.foldl (specInitiateValidatorExit config currentEpoch) validators)[i]? =
      validators[i]? := by
  induction indices generalizing validators with
  | nil => rfl
  | cons j indices ih =>
    have hne := (List.ne_of_not_mem_cons hmem).symm
    rw [List.foldl_cons, ih (List.not_mem_of_not_mem_cons hmem),
      specInitiateValidatorExit_of_ne hne]

omit [Preset] in
theorem foldl_initiateValidatorExit_of_notMem (hmem : i ∉ indices) :
    (indices.foldl CachedBeaconState.initiateValidatorExit state).validators[i]? =
      state.validators[i]? := by
  induction indices generalizing state with
  | nil => rfl
  | cons j indices ih =>
    have hne := (List.ne_of_not_mem_cons hmem).symm
    rw [List.foldl_cons, ih (List.not_mem_of_not_mem_cons hmem),
      CachedBeaconState.initiateValidatorExit_of_ne hne]

theorem foldl_specInitiateValidatorExit_filter (hnodup : indices.Nodup) :
    indices.foldl (specInitiateValidatorExit config currentEpoch) validators =
      (indices.filter fun i =>
        validators[i]?.any fun validator => validator.exitEpoch = FAR_FUTURE_EPOCH).foldl
        (specInitiateValidatorExit config currentEpoch) validators := by
  induction indices generalizing validators with
  | nil => rfl
  | cons i indices ih =>
    obtain ⟨hmem, hnodup⟩ := List.nodup_cons.1 hnodup
    have hsame : indices.filter (fun j => (specInitiateValidatorExit config currentEpoch validators
          i)[j]?.any fun validator => validator.exitEpoch = FAR_FUTURE_EPOCH) =
        indices.filter fun j =>
          validators[j]?.any fun validator => validator.exitEpoch = FAR_FUTURE_EPOCH := by
      refine List.filter_congr fun j hj => ?_
      have hne : i ≠ j := (ne_of_mem_of_not_mem hj hmem).symm
      rw [specInitiateValidatorExit_of_ne hne]
    rw [List.foldl_cons, ih hnodup, hsame]
    cases hvalidator : validators[i]? with
    | none =>
      rw [List.filter_cons_of_neg (by simp [hvalidator])]
      have hnone : specInitiateValidatorExit config currentEpoch validators i = validators := by
        unfold specInitiateValidatorExit
        rw [hvalidator]
      rw [hnone]
    | some validator =>
      by_cases hexit : validator.exitEpoch = FAR_FUTURE_EPOCH
      · rw [List.filter_cons_of_pos (by simp [hvalidator, hexit]), List.foldl_cons]
      · rw [List.filter_cons_of_neg (by simp [hvalidator, hexit]),
          specInitiateValidatorExit_self hvalidator hexit]

theorem CacheFollows.ejectAll (h : CacheFollows currentEpoch state)
    (hintime : ExitsInTime currentEpoch state) (hnodup : indices.Nodup)
    (hexits : ∀ i ∈ indices, ∃ validator, state.validators[i]? = some validator ∧
      validator.exitEpoch = FAR_FUTURE_EPOCH) :
    (indices.foldl CachedBeaconState.initiateValidatorExit state).validators =
      indices.foldl (specInitiateValidatorExit state.config currentEpoch) state.validators := by
  induction indices generalizing state with
  | nil => rfl
  | cons i indices ih =>
    obtain ⟨hmem, hnodup⟩ := List.nodup_cons.1 hnodup
    obtain ⟨validator, hvalidator, hexit⟩ := hexits i List.mem_cons_self
    obtain ⟨hnext, hintime', -, heq⟩ := h.eject hvalidator hexit
    have hconfig : (state.initiateValidatorExit i).config = state.config := by
      obtain ⟨_, _, -, hstate⟩ := CachedBeaconState.initiateValidatorExit_eq hvalidator hexit
      rw [hstate]
    rw [List.foldl_cons, List.foldl_cons, ih hnext hintime' hnodup fun j hj => ?_, heq hintime,
      hconfig]
    have hne : i ≠ j := (ne_of_mem_of_not_mem hj hmem).symm
    rw [CachedBeaconState.initiateValidatorExit_of_ne hne]
    exact hexits j (List.mem_cons_of_mem _ hj)

/-- The ejections are the specification's if and only if there are none, or the first is in time. -/
theorem CacheFollows.ejectAll_iff (h : CacheFollows currentEpoch state) (hnodup : indices.Nodup)
    (hexits : ∀ i ∈ indices, ∃ validator, state.validators[i]? = some validator ∧
      validator.exitEpoch = FAR_FUTURE_EPOCH) :
    (indices.foldl CachedBeaconState.initiateValidatorExit state).validators.map (·.exitEpoch) =
        (indices.foldl (specInitiateValidatorExit state.config currentEpoch) state.validators).map
          (·.exitEpoch) ↔
      indices = [] ∨ ExitsInTime currentEpoch state := by
  constructor
  · intro heq
    cases indices with
    | nil => exact .inl rfl
    | cons i indices =>
      right
      obtain ⟨hmem, -⟩ := List.nodup_cons.1 hnodup
      obtain ⟨validator, hvalidator, hexit⟩ := hexits i List.mem_cons_self
      have hi := congrArg (fun exits => exits[i]?) heq
      simp only [List.getElem?_map, List.foldl_cons] at hi
      rw [foldl_initiateValidatorExit_of_notMem hmem,
        foldl_specInitiateValidatorExit_of_notMem hmem] at hi
      exact (h.eject hvalidator hexit).2.2.1.1 hi
  · rintro (rfl | hintime)
    · rfl
    · rw [h.ejectAll hintime hnodup hexits]

/-! ## The marks -/

variable (currentEpoch) in
/-- The mark of a turn of the specification's loop. -/
def markEligible (validator : Validator) : Validator :=
  if isEligibleForActivationQueue validator then setEligible currentEpoch validator else validator

@[simp] theorem markEligible_exitEpoch (validator : Validator) :
    (markEligible currentEpoch validator).exitEpoch = validator.exitEpoch := by
  unfold markEligible
  split <;> rfl

@[simp] theorem isActiveValidator_markEligible (validator : Validator) (epoch : Nat) :
    isActiveValidator (markEligible currentEpoch validator) epoch =
      isActiveValidator validator epoch := by
  unfold markEligible
  split <;> rfl

@[simp] theorem specIsToEject_markEligible (validator : Validator) :
    specIsToEject config currentEpoch (markEligible currentEpoch validator) =
      specIsToEject config currentEpoch validator := by
  unfold markEligible
  split <;> rfl

theorem markEligible_exitAt (validator : Validator) (exitEpoch : Nat) :
    markEligible currentEpoch (exitAt config validator exitEpoch) =
      exitAt config (markEligible currentEpoch validator) exitEpoch := by
  have hsame : isEligibleForActivationQueue (exitAt config validator exitEpoch) =
      isEligibleForActivationQueue validator := rfl
  unfold markEligible
  rw [hsame]
  split <;> rfl

variable (currentEpoch) in
/-- The marks of the first `k` turns. -/
def markBelow (k : Nat) (validators : List Validator) : List Validator :=
  validators.mapIdx fun i validator => if i < k then markEligible currentEpoch validator else validator

theorem getElem?_markBelow (k : Nat) (validators : List Validator) (i : Nat) :
    (markBelow currentEpoch k validators)[i]? = validators[i]?.map fun validator =>
      if i < k then markEligible currentEpoch validator else validator :=
  List.getElem?_mapIdx

theorem modify_markBelow (k : Nat) (validators : List Validator) :
    (markBelow currentEpoch k validators).modify k (markEligible currentEpoch) =
      markBelow currentEpoch (k + 1) validators := by
  refine List.ext_getElem? fun i => ?_
  rw [getElem?_modify_eq, getElem?_markBelow, getElem?_markBelow]
  cases hvalidator : validators[i]? with
  | none => split <;> rfl
  | some validator =>
    by_cases heq : k = i
    · subst heq
      simp
    · have hlt : i < k + 1 ↔ i < k := by omega
      simp only [if_neg heq, hlt]

theorem map_markBelow {γ : Type} (f : Validator → γ)
    (hf : ∀ validator, f (markEligible currentEpoch validator) = f validator) (k : Nat)
    (validators : List Validator) :
    (markBelow currentEpoch k validators).map f = validators.map f := by
  refine List.ext_getElem? fun i => ?_
  rw [List.getElem?_map, List.getElem?_map, getElem?_markBelow, Option.map_map]
  congr 1
  funext validator
  show f (if i < k then _ else validator) = f validator
  split
  · exact hf validator
  · rfl

@[simp] theorem exitEpochs_markBelow (k : Nat) (validators : List Validator) :
    exitEpochs (markBelow currentEpoch k validators) = exitEpochs validators :=
  exitEpochs_eq_of_map (map_markBelow _ markEligible_exitEpoch k validators)

@[simp] theorem specExitEpoch_markBelow (churnLimit k : Nat) (validators : List Validator) :
    specExitEpoch currentEpoch churnLimit (markBelow currentEpoch k validators) =
      specExitEpoch currentEpoch churnLimit validators := by
  unfold specExitEpoch specExitQueueChurn specExitQueueEpoch
  rw [exitEpochs_markBelow]

@[simp] theorem specChurnLimit_markBelow (k : Nat) (validators : List Validator) :
    specChurnLimit config currentEpoch (markBelow currentEpoch k validators) =
      specChurnLimit config currentEpoch validators :=
  specChurnLimit_congr
    (map_markBelow _ (fun validator => isActiveValidator_markEligible validator _) k validators)

theorem specInitiateValidatorExit_markBelow {k : Nat} (hk : i < k) (validators : List Validator) :
    specInitiateValidatorExit config currentEpoch (markBelow currentEpoch k validators) i =
      markBelow currentEpoch k (specInitiateValidatorExit config currentEpoch validators i) := by
  have hmarked : (markBelow currentEpoch k validators)[i]? =
      validators[i]?.map (markEligible currentEpoch) := by
    rw [getElem?_markBelow]
    simp only [if_pos hk]
  cases hvalidator : validators[i]? with
  | none =>
    rw [hvalidator] at hmarked
    unfold specInitiateValidatorExit
    rw [hmarked, hvalidator]
    rfl
  | some validator =>
    rw [hvalidator] at hmarked
    by_cases hexit : validator.exitEpoch = FAR_FUTURE_EPOCH
    · rw [specInitiateValidatorExit_eq hmarked (by simpa using hexit),
        specInitiateValidatorExit_eq hvalidator hexit]
      rw [specChurnLimit_markBelow, specExitEpoch_markBelow, ← markEligible_exitAt]
      unfold markBelow
      rw [List.mapIdx_set, if_pos hk]
    · rw [specInitiateValidatorExit_self hmarked (by simpa using hexit),
        specInitiateValidatorExit_self hvalidator hexit]

theorem foldl_specUpdateValidator (k : Nat) (validators : List Validator) :
    (List.range k).foldl (specUpdateValidator config currentEpoch) validators =
      markBelow currentEpoch k (((List.range k).filter fun i =>
          validators[i]?.any (specIsToEject config currentEpoch)).foldl
        (specInitiateValidatorExit config currentEpoch) validators) := by
  induction k with
  | zero =>
    refine List.ext_getElem? fun i => ?_
    simp [getElem?_markBelow]
  | succ k ih =>
    rw [List.range_succ, List.foldl_append, ih, List.filter_append, List.foldl_append]
    generalize hejected : ((List.range k).filter fun i =>
          validators[i]?.any (specIsToEject config currentEpoch)).foldl
        (specInitiateValidatorExit config currentEpoch) validators = ejected
    have hk : ejected[k]? = validators[k]? := by
      rw [← hejected]
      refine foldl_specInitiateValidatorExit_of_notMem fun hmem => ?_
      exact Nat.lt_irrefl k (List.mem_range.1 (List.mem_of_mem_filter hmem))
    have hmarked : (markBelow currentEpoch (k + 1) ejected)[k]? =
        validators[k]?.map (markEligible currentEpoch) := by
      rw [getElem?_markBelow, hk]
      simp only [if_pos (Nat.lt_succ_self k)]
    rw [List.foldl_cons, List.foldl_nil, specUpdateValidator]
    have hmodify : (markBelow currentEpoch k ejected).modify k (fun validator =>
        if isEligibleForActivationQueue validator then setEligible currentEpoch validator
        else validator) = markBelow currentEpoch (k + 1) ejected := modify_markBelow k ejected
    rw [hmodify, hmarked]
    cases hvalidator : validators[k]? with
    | none => rw [List.filter_cons_of_neg (by simp [hvalidator])]; rfl
    | some validator =>
      dsimp only [Option.map_some]
      rw [specIsToEject_markEligible]
      split
      next heject =>
        rw [List.filter_cons_of_pos (by simp [hvalidator, heject]), List.filter_nil,
          List.foldl_cons, List.foldl_nil]
        exact specInitiateValidatorExit_markBelow (Nat.lt_succ_self k) ejected
      next heject =>
        rw [List.filter_cons_of_neg (by simp [hvalidator, heject])]
        rfl

/-! ## The fields the activations read -/

/-- The fields of a validator that no ejection touches. -/
def eligibility (validator : Validator) : WithTop Nat × WithTop Nat × Nat :=
  (validator.activationEligibilityEpoch, validator.activationEpoch, validator.effectiveBalance)

theorem specInitiateValidatorExit_eligibility :
    (specInitiateValidatorExit config currentEpoch validators i).map eligibility =
      validators.map eligibility := by
  cases hvalidator : validators[i]? with
  | none =>
    unfold specInitiateValidatorExit
    rw [hvalidator]
  | some validator =>
    by_cases hexit : validator.exitEpoch = FAR_FUTURE_EPOCH
    · rw [specInitiateValidatorExit_eq hvalidator hexit]
      exact map_set_of_eq hvalidator rfl
    · rw [specInitiateValidatorExit_self hvalidator hexit]

theorem foldl_specInitiateValidatorExit_eligibility :
    (indices.foldl (specInitiateValidatorExit config currentEpoch) validators).map eligibility =
      validators.map eligibility := by
  induction indices generalizing validators with
  | nil => rfl
  | cons i indices ih => rw [List.foldl_cons, ih, specInitiateValidatorExit_eligibility]

/-- What an exit leaves alone. -/
structure ExitFrame (state state' : CachedBeaconState β) : Prop where
  eligibility : state'.validators.map StateTransition.eligibility =
    state.validators.map StateTransition.eligibility
  currentShuffling : state'.epochCtx.currentShuffling = state.epochCtx.currentShuffling
  churnLimit : state'.epochCtx.churnLimit = state.epochCtx.churnLimit
  finalizedCheckpoint : state'.finalizedCheckpoint = state.finalizedCheckpoint

omit [Preset] in
theorem exitFrame_initiateValidatorExit (state : CachedBeaconState β) (i : Nat) :
    ExitFrame state (state.initiateValidatorExit i) := by
  cases hvalidator : state.validators[i]? with
  | none =>
    unfold CachedBeaconState.initiateValidatorExit
    rw [hvalidator]
    exact ⟨rfl, rfl, rfl, rfl⟩
  | some validator =>
    by_cases hexit : validator.exitEpoch = FAR_FUTURE_EPOCH
    · obtain ⟨_, _, -, hstate⟩ := CachedBeaconState.initiateValidatorExit_eq hvalidator hexit
      rw [hstate]
      exact ⟨map_set_of_eq hvalidator rfl, rfl, rfl, rfl⟩
    · unfold CachedBeaconState.initiateValidatorExit StateTransition.initiateValidatorExit
      rw [hvalidator]
      simp only [if_pos hexit]
      exact ⟨map_set_of_eq hvalidator rfl, rfl, rfl, rfl⟩

omit [Preset] in
theorem exitFrame_foldl (state : CachedBeaconState β) (indices : List Nat) :
    ExitFrame state (indices.foldl CachedBeaconState.initiateValidatorExit state) := by
  induction indices generalizing state with
  | nil => exact ⟨rfl, rfl, rfl, rfl⟩
  | cons i indices ih =>
    have hfirst := exitFrame_initiateValidatorExit state i
    have hrest := ih (state.initiateValidatorExit i)
    exact ⟨hrest.eligibility.trans hfirst.eligibility,
      hrest.currentShuffling.trans hfirst.currentShuffling,
      hrest.churnLimit.trans hfirst.churnLimit,
      hrest.finalizedCheckpoint.trans hfirst.finalizedCheckpoint⟩

theorem specChurnLimit_specInitiateValidatorExit :
    specChurnLimit config currentEpoch (specInitiateValidatorExit config currentEpoch validators i) =
      specChurnLimit config currentEpoch validators := by
  cases hvalidator : validators[i]? with
  | none =>
    unfold specInitiateValidatorExit
    rw [hvalidator]
  | some validator =>
    by_cases hexit : validator.exitEpoch = FAR_FUTURE_EPOCH
    · rw [specInitiateValidatorExit_eq hvalidator hexit, specChurnLimit_set hvalidator]
      refine isActiveValidator_exitAt hexit ?_
      have hlast : computeActivationExitEpoch currentEpoch ≤ specExitQueueEpoch currentEpoch validators :=
        le_foldl_max (exitEpochs validators) _
      unfold computeActivationExitEpoch at hlast
      unfold specExitEpoch
      split <;> omega
    · rw [specInitiateValidatorExit_self hvalidator hexit]

theorem specChurnLimit_foldl :
    specChurnLimit config currentEpoch
        (indices.foldl (specInitiateValidatorExit config currentEpoch) validators) =
      specChurnLimit config currentEpoch validators := by
  induction indices generalizing validators with
  | nil => rfl
  | cons i indices ih => rw [List.foldl_cons, ih, specChurnLimit_specInitiateValidatorExit]

/-! ## The activations -/

/-- The placement in the queue is finalized. -/
def isPlaced (finalityEpoch : Nat) (validator : Validator) : Bool :=
  decide (validator.activationEligibilityEpoch ≤ finalityEpoch)

def activateAt (activationEpoch : Nat) (validator : Validator) : Validator :=
  { validator with activationEpoch := (activationEpoch : Nat) }

omit [Preset] in
/-- The loop up to its `break` activates what comes before the first validator not finalized. -/
theorem processActivations_eq (finalityEpoch activationEpoch : Nat) (indices : List Nat)
    (validators : List Validator) :
    processActivations finalityEpoch activationEpoch indices validators =
      modifyAt (indices.takeWhile fun i => validators[i]?.any (isPlaced finalityEpoch))
        (activateAt activationEpoch) validators := by
  induction indices generalizing validators with
  | nil => rfl
  | cons i indices ih =>
    unfold processActivations
    cases hvalidator : validators[i]? with
    | none =>
      have hnot : ¬ (validators[i]?.any (isPlaced finalityEpoch)) = true := by simp [hvalidator]
      rw [List.takeWhile_cons, if_neg hnot]
      rfl
    | some validator =>
      dsimp only
      by_cases hlate : (finalityEpoch : WithTop Nat) < validator.activationEligibilityEpoch
      · have hnot : ¬ (validators[i]?.any (isPlaced finalityEpoch)) = true := by
          simpa [hvalidator, isPlaced] using hlate
        rw [if_pos hlate, List.takeWhile_cons, if_neg hnot]
        rfl
      · have hplaced : (validators[i]?.any (isPlaced finalityEpoch)) = true := by
          simpa [hvalidator, isPlaced] using hlate
        rw [if_neg hlate, List.takeWhile_cons, if_pos hplaced, modifyAt_cons, ih]
        unfold activateAt
        congr 2
        funext j
        rw [getElem?_modify_eq]
        split
        · rw [Option.any_map]
          rfl
        · rfl

theorem isPlaced_markEligible {finalizedEpoch : Nat} (hle : finalizedEpoch ≤ currentEpoch) :
    isPlaced finalizedEpoch (markEligible currentEpoch validator) =
      (!isEligibleForActivationQueue validator && isPlaced finalizedEpoch validator) := by
  unfold markEligible
  split
  next hqueue =>
    have hnot : ¬ ((currentEpoch + 1 : Nat) : WithTop Nat) ≤ (finalizedEpoch : Nat) := by
      rw [Nat.cast_le]
      omega
    rw [hqueue]
    exact decide_eq_false hnot
  next hqueue => simp [hqueue]

/-- The epoch by which a validator is placed in the activation queue. -/
def eligibilityEpoch (validators : List Validator) (i : Nat) : WithTop Nat :=
  match validators[i]? with
  | some validator => validator.activationEligibilityEpoch
  | none => ⊤

omit [Preset] in
theorem activationOrder_iff (validators : List Validator) (a b : Nat) :
    activationOrder validators a b = true ↔
      eligibilityEpoch validators a < eligibilityEpoch validators b ∨
        eligibilityEpoch validators a = eligibilityEpoch validators b ∧ a ≤ b := by
  unfold activationOrder
  simp only [Bool.or_eq_true, Bool.and_eq_true, decide_eq_true_iff]
  rfl

omit [Preset] in
theorem activationOrder_trans (validators : List Validator) (a b c : Nat)
    (hab : activationOrder validators a b = true) (hbc : activationOrder validators b c = true) :
    activationOrder validators a c = true := by
  rw [activationOrder_iff] at *
  rcases hab with hab | ⟨hab, hab'⟩
  · rcases hbc with hbc | ⟨hbc, -⟩
    · exact .inl (hab.trans hbc)
    · exact .inl (hbc ▸ hab)
  · rcases hbc with hbc | ⟨hbc, hbc'⟩
    · exact .inl (hab ▸ hbc)
    · exact .inr ⟨hab.trans hbc, hab'.trans hbc'⟩

omit [Preset] in
theorem activationOrder_total (validators : List Validator) (a b : Nat) :
    (activationOrder validators a b || activationOrder validators b a) = true := by
  rw [Bool.or_eq_true, activationOrder_iff, activationOrder_iff]
  rcases lt_trichotomy (eligibilityEpoch validators a) (eligibilityEpoch validators b) with h | h | h
  · exact .inl (.inl h)
  · rcases Nat.le_total a b with hle | hle
    · exact .inl (.inr ⟨h, hle⟩)
    · exact .inr (.inr ⟨h.symm, hle⟩)
  · exact .inr (.inl h)

omit [Preset] in
theorem activationOrder_antisymm (validators : List Validator) (a b : Nat)
    (hab : activationOrder validators a b = true) (hba : activationOrder validators b a = true) :
    a = b := by
  rw [activationOrder_iff] at *
  rcases hab with hab | ⟨hab, hab'⟩
  · rcases hba with hba | ⟨hba, -⟩
    · exact absurd hab (lt_asymm hba)
    · exact absurd hba (ne_of_gt hab)
  · rcases hba with hba | ⟨-, hba'⟩
    · exact absurd hab (ne_of_gt hba)
    · exact Nat.le_antisymm hab' hba'

section

variable {marked : List Validator} {finalizedEpoch : Nat}

omit [Preset] in
theorem getElem?_eligibility (h : validators'.map eligibility = validators.map eligibility) (i : Nat) :
    validators'[i]? = none ∧ validators[i]? = none ∨
      ∃ validator validator' : Validator, validators'[i]? = some validator' ∧
        validators[i]? = some validator ∧ eligibility validator' = eligibility validator := by
  have hi := congrArg (fun fields => fields[i]?) h
  simp only [List.getElem?_map] at hi
  cases hvalidator : validators[i]? with
  | none =>
    rw [hvalidator, Option.map_none, Option.map_eq_none_iff] at hi
    exact .inl ⟨hi, rfl⟩
  | some validator =>
    rw [hvalidator, Option.map_some, Option.map_eq_some_iff] at hi
    obtain ⟨validator', hvalidator', heq⟩ := hi
    exact .inr ⟨validator, validator', hvalidator', rfl, heq⟩

variable (currentEpoch validators) in
/-- A registry after the ejections and the marks, as far as the activations can see. -/
structure Marked (marked : List Validator) : Prop where
  none : ∀ i : Nat, validators[i]? = none → marked[i]? = none
  some : ∀ (i : Nat) (validator : Validator), validators[i]? = some validator →
    ∃ validator', marked[i]? = some validator' ∧
      validator'.activationEpoch = validator.activationEpoch ∧
      validator'.activationEligibilityEpoch =
        (markEligible currentEpoch validator).activationEligibilityEpoch

theorem Marked.of_eligibility (h : validators'.map eligibility = validators.map eligibility) :
    Marked currentEpoch validators (markBelow currentEpoch validators.length validators') := by
  constructor
  · intro i hvalidator
    rcases getElem?_eligibility h i with ⟨hnone, -⟩ | ⟨validator, validator', -, hsome, -⟩
    · rw [getElem?_markBelow, hnone, Option.map_none]
    · rw [hvalidator] at hsome
      cases hsome
  · intro i validator hvalidator
    have hlt := (List.getElem?_eq_some_iff.1 hvalidator).1
    rcases getElem?_eligibility h i with ⟨-, hnone⟩ | ⟨_, validator', hvalidator', hsome, heq⟩
    · rw [hvalidator] at hnone
      cases hnone
    · rw [hvalidator] at hsome
      obtain rfl := Option.some.inj hsome
      obtain ⟨hplaced, hrest⟩ := Prod.mk.inj heq
      obtain ⟨hactivation, hbalance⟩ := Prod.mk.inj hrest
      refine ⟨markEligible currentEpoch validator', ?_, ?_, ?_⟩
      · rw [getElem?_markBelow, hvalidator', Option.map_some, if_pos hlt]
      · unfold markEligible
        split <;> exact hactivation
      · unfold markEligible isEligibleForActivationQueue
        rw [hplaced, hbalance]
        split
        · rfl
        · exact hplaced

theorem Marked.isPlaced (h : Marked currentEpoch validators marked)
    (hle : finalizedEpoch ≤ currentEpoch) (i : Nat) :
    marked[i]?.any (isPlaced finalizedEpoch) = validators[i]?.any fun validator =>
      !isEligibleForActivationQueue validator && StateTransition.isPlaced finalizedEpoch validator := by
  cases hvalidator : validators[i]? with
  | none => rw [h.none i hvalidator]; rfl
  | some validator =>
    obtain ⟨validator', hvalidator', -, hplaced⟩ := h.some i validator hvalidator
    rw [hvalidator', Option.any_some, Option.any_some, ← isPlaced_markEligible hle]
    unfold StateTransition.isPlaced
    rw [hplaced]

theorem Marked.specIsEligibleForActivation (h : Marked currentEpoch validators marked)
    (hle : finalizedEpoch ≤ currentEpoch) (i : Nat) :
    marked[i]?.any (specIsEligibleForActivation finalizedEpoch) =
      (validators[i]?.any (isEligibleForActivation currentEpoch) &&
        marked[i]?.any (StateTransition.isPlaced finalizedEpoch)) := by
  rw [h.isPlaced hle]
  cases hvalidator : validators[i]? with
  | none => rw [h.none i hvalidator]; rfl
  | some validator =>
    obtain ⟨validator', hvalidator', hactivation, hplaced⟩ := h.some i validator hvalidator
    have hplaced' : StateTransition.isPlaced finalizedEpoch validator' =
        (!isEligibleForActivationQueue validator &&
          StateTransition.isPlaced finalizedEpoch validator) := by
      rw [← isPlaced_markEligible hle]
      unfold StateTransition.isPlaced
      rw [hplaced]
    have hcurrent : StateTransition.isPlaced finalizedEpoch validator = true →
        decide (validator.activationEligibilityEpoch ≤ currentEpoch) = true := by
      intro hfinalized
      refine decide_eq_true ((of_decide_eq_true hfinalized).trans ?_)
      exact_mod_cast hle
    rw [hvalidator', Option.any_some, Option.any_some, Option.any_some]
    show (StateTransition.isPlaced finalizedEpoch validator' && _) = _
    rw [hplaced', hactivation]
    unfold isEligibleForActivation
    cases isEligibleForActivationQueue validator
    · cases hfinalized : StateTransition.isPlaced finalizedEpoch validator
      · simp
      · simp [hcurrent hfinalized]
    · simp

theorem Marked.eligibilityEpoch_eq (h : Marked currentEpoch validators marked)
    (hle : finalizedEpoch ≤ currentEpoch) (hplaced : marked[i]?.any (StateTransition.isPlaced finalizedEpoch)) :
    eligibilityEpoch marked i = eligibilityEpoch validators i := by
  rw [h.isPlaced hle] at hplaced
  unfold eligibilityEpoch
  cases hvalidator : validators[i]? with
  | none => rw [h.none i hvalidator]
  | some validator =>
    obtain ⟨validator', hvalidator', -, heq⟩ := h.some i validator hvalidator
    rw [hvalidator, Option.any_some, Bool.and_eq_true, Bool.not_eq_true'] at hplaced
    rw [hvalidator']
    dsimp only
    rw [heq]
    unfold markEligible
    rw [hplaced.1]
    rfl

theorem activations_eq {marked' : List Validator} (h : Marked currentEpoch validators marked)
    (h' : Marked currentEpoch validators marked') (hle : finalizedEpoch ≤ currentEpoch)
    (hlength : marked'.length = validators.length) (churnLimit : Nat) :
    (((indicesWhere (isEligibleForActivation currentEpoch) validators).mergeSort
        (activationOrder validators)).take churnLimit).takeWhile
        (fun i => marked[i]?.any (StateTransition.isPlaced finalizedEpoch)) =
      ((indicesWhere (StateTransition.specIsEligibleForActivation finalizedEpoch) marked').mergeSort
        (activationOrder marked')).take churnLimit := by
  have hplaced (i : Nat) : marked[i]?.any (StateTransition.isPlaced finalizedEpoch) =
      marked'[i]?.any (StateTransition.isPlaced finalizedEpoch) := by
    rw [h.isPlaced hle, h'.isPlaced hle]
  have hfilter : indicesWhere (StateTransition.specIsEligibleForActivation finalizedEpoch) marked' =
      (indicesWhere (isEligibleForActivation currentEpoch) validators).filter
        (fun i => marked[i]?.any (StateTransition.isPlaced finalizedEpoch)) := by
    rw [indicesWhere_eq, indicesWhere_eq, hlength, List.filter_filter]
    refine List.filter_congr fun i _ => ?_
    rw [h'.specIsEligibleForActivation hle, hplaced, Bool.and_comm]
  rw [← List.take_takeWhile]
  congr 1
  rw [takeWhile_eq_filter (List.pairwise_mergeSort (activationOrder_trans validators)
    (activationOrder_total validators) _)]
  · refine filter_mergeSort (activationOrder_trans validators) (activationOrder_total validators)
      (activationOrder_trans marked') (activationOrder_total marked')
      (activationOrder_antisymm validators) ?_ (List.Perm.of_eq hfilter)
    intro a ha b hb hab
    rw [hfilter, List.mem_filter] at ha hb
    rw [activationOrder_iff] at hab ⊢
    rwa [h'.eligibilityEpoch_eq hle (hplaced a ▸ ha.2),
      h'.eligibilityEpoch_eq hle (hplaced b ▸ hb.2)] at hab
  · intro a ha b hb hab hplacedb
    obtain ⟨va, hva, heligible⟩ := mem_indicesWhere_iff.1 (List.mem_mergeSort.1 ha)
    obtain ⟨vb, hvb, -⟩ := mem_indicesWhere_iff.1 (List.mem_mergeSort.1 hb)
    rw [h.isPlaced hle, hvb, Option.any_some, Bool.and_eq_true] at hplacedb
    rw [h.isPlaced hle, hva, Option.any_some, Bool.and_eq_true]
    unfold isEligibleForActivation at heligible
    rw [Bool.and_eq_true] at heligible
    refine ⟨heligible.1, decide_eq_true (le_trans ?_ (of_decide_eq_true hplacedb.2))⟩
    have hea : eligibilityEpoch validators a = va.activationEligibilityEpoch := by
      unfold eligibilityEpoch
      rw [hva]
    have heb : eligibilityEpoch validators b = vb.activationEligibilityEpoch := by
      unfold eligibilityEpoch
      rw [hvb]
    rw [activationOrder_iff, hea, heb] at hab
    rcases hab with hlt | ⟨heq, -⟩
    · exact hlt.le
    · exact heq.le

end

/-! ## The epoch transition -/

omit [Preset] in
theorem beforeProcessEpoch_indices [Preset]
    {withAttestations : List IAttesterStatus → Except String (List IAttesterStatus)}
    {process : EpochProcess} (h : beforeProcessEpoch state withAttestations = .ok process) :
    process.currentEpoch = state.epochCtx.currentShuffling.epoch ∧
    process.indicesToEject = indicesWhere
      (isToEject state.config state.epochCtx.currentShuffling.epoch) state.validators ∧
    process.indicesEligibleForActivationQueue =
      indicesWhere isEligibleForActivationQueue state.validators ∧
    process.indicesEligibleForActivation =
      (indicesWhere (isEligibleForActivation state.epochCtx.currentShuffling.epoch)
        state.validators).mergeSort (activationOrder state.validators) ∧
    process.indicesToSlash = indicesWhere
      (isToSlash state.epochCtx.currentShuffling.epoch) state.validators := by
  unfold beforeProcessEpoch at h
  dsimp only at h
  split at h
  · cases h
  · obtain ⟨statuses, -, hret⟩ := eq_ok_of_bind h
    cases hret
    exact ⟨rfl, rfl, rfl, rfl, rfl⟩

theorem processJustificationAndFinalization_frame {state state' : CachedBeaconStateAllForks β}
    {epochProcess : EpochProcess}
    (hcall : processJustificationAndFinalization state epochProcess = .ok state') :
    state'.validators = state.validators ∧ state'.epochCtx = state.epochCtx ∧
      state'.config = state.config := by
  unfold processJustificationAndFinalization at hcall
  dsimp only at hcall
  split at hcall
  · obtain rfl := Except.ok.inj hcall
    exact ⟨rfl, rfl, rfl⟩
  · obtain ⟨_, -, hcall⟩ := eq_ok_of_bind hcall
    obtain ⟨_, -, hcall⟩ := eq_ok_of_bind hcall
    obtain rfl := Except.ok.inj hcall
    exact ⟨rfl, rfl, rfl⟩

/-- The `else` of the loop of `beforeProcessEpoch` passes over an active validator that is yet to be
placed in the activation queue, if that is ejected at `MAX_EFFECTIVE_BALANCE`. -/
def isOverlooked (config : ChainConfig) (currentEpoch : Nat) (validator : Validator) : Bool :=
  isEligibleForActivationQueue validator &&
    (specIsToEject config currentEpoch validator && validator.exitEpoch = FAR_FUTURE_EPOCH)

theorem isToEject_eq (h : isOverlooked config currentEpoch validator = false) :
    isToEject config currentEpoch validator =
      (decide (validator.exitEpoch = FAR_FUTURE_EPOCH) &&
        specIsToEject config currentEpoch validator) := by
  have hactive : isEligibleForActivation currentEpoch validator = true →
      isActiveValidator validator currentEpoch = false := by
    intro heligible
    unfold isEligibleForActivation at heligible
    rw [Bool.and_eq_true, Bool.and_eq_true, decide_eq_true_iff] at heligible
    unfold isActiveValidator
    rw [heligible.2.1, decide_eq_false (not_le_of_gt (WithTop.coe_lt_top _)), Bool.false_and]
  unfold isOverlooked specIsToEject at h
  unfold isToEject specIsToEject
  cases hqueue : isEligibleForActivationQueue validator
  · cases heligible : isEligibleForActivation currentEpoch validator
    · cases isActiveValidator validator currentEpoch <;>
        cases decide (validator.exitEpoch = FAR_FUTURE_EPOCH) <;> simp
    · simp [hactive heligible]
  · rw [hqueue, Bool.true_and, Bool.and_comm] at h
    rw [h]
    rfl

theorem indicesWhere_isToEject
    (h : ∀ validator ∈ validators, isOverlooked config currentEpoch validator = false) :
    indicesWhere (isToEject config currentEpoch) validators =
      (indicesWhere (specIsToEject config currentEpoch) validators).filter fun i =>
        validators[i]?.any fun validator => validator.exitEpoch = FAR_FUTURE_EPOCH := by
  rw [indicesWhere_eq, indicesWhere_eq, List.filter_filter]
  refine List.filter_congr fun i _ => ?_
  cases hvalidator : validators[i]? with
  | none => rfl
  | some validator => exact isToEject_eq (h validator (List.mem_of_getElem? hvalidator))

theorem exitEpoch_ne_of_ejected (hnodup : indices.Nodup) (hmem : i ∈ indices)
    (hvalidator : validators[i]? = some validator) :
    ∃ ejected, (indices.foldl (specInitiateValidatorExit config currentEpoch) validators)[i]? =
      some ejected ∧ ejected.exitEpoch ≠ FAR_FUTURE_EPOCH := by
  induction indices generalizing validators with
  | nil => cases hmem
  | cons j indices ih =>
    obtain ⟨hnotMem, hnodup⟩ := List.nodup_cons.1 hnodup
    rw [List.foldl_cons]
    rcases List.mem_cons.1 hmem with rfl | hmem
    · rw [foldl_specInitiateValidatorExit_of_notMem hnotMem]
      by_cases hexit : validator.exitEpoch = FAR_FUTURE_EPOCH
      · rw [specInitiateValidatorExit_eq hvalidator hexit,
          List.getElem?_set_self (List.getElem?_eq_some_iff.1 hvalidator).1]
        exact ⟨_, rfl, WithTop.coe_ne_top⟩
      · rw [specInitiateValidatorExit_self hvalidator hexit]
        exact ⟨validator, hvalidator, hexit⟩
    · have hne : j ≠ i := (ne_of_mem_of_not_mem hmem hnotMem).symm
      refine ih hnodup hmem ?_
      rw [specInitiateValidatorExit_of_ne hne]
      exact hvalidator

theorem modifyAt_setEligible (h : validators'.map eligibility = validators.map eligibility) :
    modifyAt (indicesWhere isEligibleForActivationQueue validators) (setEligible currentEpoch)
        validators' =
      markBelow currentEpoch validators.length validators' := by
  refine List.ext_getElem? fun i => ?_
  rw [getElem?_modifyAt nodup_indicesWhere, getElem?_markBelow]
  rcases getElem?_eligibility h i with ⟨hnone, -⟩ | ⟨validator, validator', hvalidator', hvalidator, heq⟩
  · rw [hnone]
    split <;> rfl
  · have hlt := (List.getElem?_eq_some_iff.1 hvalidator).1
    have hqueue : isEligibleForActivationQueue validator' = isEligibleForActivationQueue validator := by
      obtain ⟨hplaced, hrest⟩ := Prod.mk.inj heq
      unfold isEligibleForActivationQueue
      rw [hplaced, (Prod.mk.inj hrest).2]
    rw [hvalidator', Option.map_some, Option.map_some, if_pos hlt]
    unfold markEligible
    rw [hqueue]
    cases hcase : isEligibleForActivationQueue validator
    · rw [if_neg fun hmem => ?_, if_neg Bool.false_ne_true]
      obtain ⟨_, hsome, htrue⟩ := mem_indicesWhere_iff.1 hmem
      rw [hvalidator] at hsome
      obtain rfl := Option.some.inj hsome
      rw [hcase] at htrue
      exact Bool.false_ne_true htrue
    · rw [if_pos (mem_indicesWhere_iff.2 ⟨validator, hvalidator, hcase⟩), if_pos rfl]

theorem specProcessRegistryUpdates_eq (finalizedEpoch : Nat) (validators : List Validator) :
    specProcessRegistryUpdates config currentEpoch finalizedEpoch validators =
      let marked := markBelow currentEpoch validators.length
        ((indicesWhere (specIsToEject config currentEpoch) validators).foldl
          (specInitiateValidatorExit config currentEpoch) validators)
      modifyAt (((indicesWhere (specIsEligibleForActivation finalizedEpoch) marked).mergeSort
          (activationOrder marked)).take (specChurnLimit config currentEpoch validators))
        (activateAt (computeActivationExitEpoch currentEpoch)) marked := by
  unfold specProcessRegistryUpdates
  rw [foldl_specUpdateValidator, ← indicesWhere_eq]
  dsimp only
  rw [specChurnLimit_markBelow, specChurnLimit_foldl]
  rfl

theorem processRegistryUpdates_eq {epochProcess : EpochProcess}
    (hqueue : epochProcess.indicesEligibleForActivationQueue =
      indicesWhere isEligibleForActivationQueue state.validators) :
    (processRegistryUpdates state epochProcess).validators =
      let marked := markBelow state.epochCtx.currentShuffling.epoch state.validators.length
        (epochProcess.indicesToEject.foldl CachedBeaconState.initiateValidatorExit state).validators
      modifyAt ((epochProcess.indicesEligibleForActivation.take state.epochCtx.churnLimit).takeWhile
          fun i => marked[i]?.any (StateTransition.isPlaced state.finalizedCheckpoint.epoch))
        (activateAt (computeActivationExitEpoch epochProcess.currentEpoch)) marked := by
  have hframe := exitFrame_foldl state epochProcess.indicesToEject
  unfold processRegistryUpdates
  dsimp only
  rw [processActivations_eq, hframe.currentShuffling, hframe.churnLimit,
    hframe.finalizedCheckpoint, hqueue, modifyAt_setEligible hframe.eligibility]

omit [Preset] in
theorem map_exitEpoch_activateAt (indices : List Nat) (activationEpoch : Nat)
    (validators : List Validator) :
    (modifyAt indices (activateAt activationEpoch) validators).map (·.exitEpoch) =
      validators.map (·.exitEpoch) :=
  map_modifyAt (f := activateAt activationEpoch) (fun _ => rfl) indices validators

/-- With the lists of the registry as it is, the code's updates are the specification's if and only
if the ejections are. -/
theorem CacheFollows.registryUpdates_iff (h : CacheFollows currentEpoch state)
    (hepoch : state.epochCtx.currentShuffling.epoch = currentEpoch)
    (hfinalized : state.finalizedCheckpoint.epoch ≤ currentEpoch) {epochProcess : EpochProcess}
    (hcurrent : epochProcess.currentEpoch = currentEpoch)
    (heject : epochProcess.indicesToEject =
      indicesWhere (isToEject state.config currentEpoch) state.validators)
    (hqueue : epochProcess.indicesEligibleForActivationQueue =
      indicesWhere isEligibleForActivationQueue state.validators)
    (hactivation : epochProcess.indicesEligibleForActivation =
      (indicesWhere (isEligibleForActivation currentEpoch) state.validators).mergeSort
        (activationOrder state.validators)) :
    (processRegistryUpdates state epochProcess).validators =
        specProcessRegistryUpdates state.config currentEpoch state.finalizedCheckpoint.epoch
          state.validators ↔
      (∀ validator ∈ state.validators, isOverlooked state.config currentEpoch validator = false) ∧
      ((∀ validator ∈ state.validators, isToEject state.config currentEpoch validator = false) ∨
        ExitsInTime currentEpoch state) := by
  have hframe := exitFrame_foldl state epochProcess.indicesToEject
  have hspecFrame : ((indicesWhere (specIsToEject state.config currentEpoch) state.validators).foldl
        (specInitiateValidatorExit state.config currentEpoch) state.validators).map eligibility =
      state.validators.map eligibility := foldl_specInitiateValidatorExit_eligibility
  have hspecLength := congrArg List.length hspecFrame
  rw [List.length_map, List.length_map] at hspecLength
  rw [processRegistryUpdates_eq hqueue, specProcessRegistryUpdates_eq, hepoch, hcurrent, hactivation,
    h.churnLimit, heject] at *
  dsimp only
  rw [activations_eq (.of_eligibility hframe.eligibility) (.of_eligibility hspecFrame) hfinalized
    (by rw [markBelow, List.length_mapIdx, hspecLength])]
  -- an exit is set once, and what follows the ejections leaves it
  have hexits : ∀ i ∈ indicesWhere (isToEject state.config currentEpoch) state.validators,
      ∃ validator, state.validators[i]? = some validator ∧
        validator.exitEpoch = FAR_FUTURE_EPOCH := by
    intro i hi
    obtain ⟨validator, hvalidator, htoEject⟩ := mem_indicesWhere_iff.1 hi
    unfold isToEject at htoEject
    simp only [Bool.and_eq_true, decide_eq_true_iff] at htoEject
    exact ⟨validator, hvalidator, htoEject.2.1.2⟩
  have hsame : (∀ validator ∈ state.validators,
        isOverlooked state.config currentEpoch validator = false) →
      (indicesWhere (specIsToEject state.config currentEpoch) state.validators).foldl
          (specInitiateValidatorExit state.config currentEpoch) state.validators =
        (indicesWhere (isToEject state.config currentEpoch) state.validators).foldl
          (specInitiateValidatorExit state.config currentEpoch) state.validators := by
    intro hnone
    rw [foldl_specInitiateValidatorExit_filter nodup_indicesWhere, indicesWhere_isToEject hnone]
  rw [← indicesWhere_eq_nil_iff (p := isToEject state.config currentEpoch)]
  constructor
  · intro heq
    have heq := congrArg (List.map (·.exitEpoch)) heq
    rw [map_exitEpoch_activateAt, map_exitEpoch_activateAt, map_markBelow _ markEligible_exitEpoch,
      map_markBelow _ markEligible_exitEpoch] at heq
    have hnone : ∀ validator ∈ state.validators,
        isOverlooked state.config currentEpoch validator = false := by
      intro validator hmem
      obtain ⟨i, hvalidator⟩ := List.getElem?_of_mem hmem
      refine Bool.eq_false_iff.2 fun hoverlooked => ?_
      unfold isOverlooked at hoverlooked
      rw [Bool.and_eq_true, Bool.and_eq_true, decide_eq_true_iff] at hoverlooked
      obtain ⟨hplaced, htoEject, hexit⟩ := hoverlooked
      -- the code leaves it, and the specification does not
      have hnotMem : i ∉ indicesWhere (isToEject state.config currentEpoch) state.validators := by
        intro hi
        obtain ⟨_, hsome, htrue⟩ := mem_indicesWhere_iff.1 hi
        rw [hvalidator] at hsome
        obtain rfl := Option.some.inj hsome
        unfold isToEject at htrue
        rw [hplaced] at htrue
        cases htrue
      have hmemSpec := mem_indicesWhere_iff.2 ⟨validator, hvalidator, htoEject⟩
      have hset : ∃ ejected, ((indicesWhere (specIsToEject state.config currentEpoch)
          state.validators).foldl (specInitiateValidatorExit state.config currentEpoch)
          state.validators)[i]? = some ejected ∧ ejected.exitEpoch ≠ FAR_FUTURE_EPOCH :=
        exitEpoch_ne_of_ejected nodup_indicesWhere hmemSpec hvalidator
      obtain ⟨ejected, hejected, hne⟩ := hset
      have hi := congrArg (fun exits => exits[i]?) heq
      simp only [List.getElem?_map] at hi
      rw [foldl_initiateValidatorExit_of_notMem hnotMem, hvalidator, hejected] at hi
      exact hne ((Option.some.inj hi).symm.trans hexit)
    rw [hsame hnone] at heq
    exact ⟨hnone, (h.ejectAll_iff nodup_indicesWhere hexits).1 heq⟩
  · rintro ⟨hnone, hintime⟩
    rw [hsame hnone]
    rcases hintime with hnil | hintime
    · rw [hnil]
      rfl
    · rw [h.ejectAll hintime nodup_indicesWhere hexits]

theorem CacheInv.follows {state : CachedBeaconState (List Nat)} (h : CacheInv state) :
    CacheFollows (computeEpochAtSlot state.slot) state where
  churnLimit := h.churnLimit
  queue := h.queue

/-- In every state of a run, the registry after justification is updated as the specification does
if and only if no validator is overlooked, and no exit is initiated or the first is in time. -/
theorem processRegistryUpdates_eq_spec_iff {state₀ reached : RewardedState}
    (h₀ : state₀.Created)
    (hrun : Relation.ReflTransGen (CacheStep fun _ _ => True) state₀ reached)
    {state state' : CachedBeaconStateAllForks (List Nat)}
    (hreached : state.toCachedBeaconState = reached.toCachedBeaconState)
    (hfinality : FinalityOrder state)
    {withAttestations : List IAttesterStatus → Except String (List IAttesterStatus)}
    {epochProcess : EpochProcess}
    (hbefore : beforeProcessEpoch state.toCachedBeaconState withAttestations = .ok epochProcess)
    (hjustify : processJustificationAndFinalization state epochProcess = .ok state') :
    (processRegistryUpdates state'.toCachedBeaconState epochProcess).validators =
        specProcessRegistryUpdates state.config (computeEpochAtSlot state.slot)
          state'.finalizedCheckpoint.epoch state'.validators ↔
      (∀ validator ∈ state.validators,
        isOverlooked state.config (computeEpochAtSlot state.slot) validator = false) ∧
      ((∀ validator ∈ state.validators,
          isToEject state.config (computeEpochAtSlot state.slot) validator = false) ∨
        ExitsInTime (computeEpochAtSlot state.slot) state.toCachedBeaconState) := by
  have hinv : CacheInv state.toCachedBeaconState := by
    rw [hreached]
    exact (TotalInv.of_created h₀).toCacheInv.run hrun
  have hcache := hinv.follows
  have hepoch : state.epochCtx.currentShuffling.epoch = computeEpochAtSlot state.slot := by
    rw [hinv.current]
  obtain ⟨hcurrent, heject, hqueue, hactivation, -⟩ := beforeProcessEpoch_indices hbefore
  obtain ⟨hvalidators, hepochCtx, hconfig⟩ := processJustificationAndFinalization_frame hjustify
  have hfinalized : state'.finalizedCheckpoint.epoch ≤ computeEpochAtSlot state.slot := by
    obtain ⟨hfin, hprev, hcurr⟩ := hfinality
    rcases processJustificationAndFinalization_cases hjustify with ⟨-, rfl⟩ | ⟨-, -, -, hf, -⟩
    · omega
    · rcases hf with hf | hf | hf <;> rw [hf] <;> omega
  have hcache' : CacheFollows (computeEpochAtSlot state.slot) state'.toCachedBeaconState := by
    constructor
    · rw [hepochCtx, hconfig, hvalidators]
      exact hcache.churnLimit
    · rw [hepochCtx, hvalidators]
      exact hcache.queue
  rw [hepoch] at hcurrent heject hactivation
  rw [← hvalidators] at heject hqueue hactivation
  rw [← hconfig] at heject
  have hiff := hcache'.registryUpdates_iff (by rw [hepochCtx, hepoch]) hfinalized hcurrent heject
    hqueue hactivation
  unfold ExitsInTime at hiff ⊢
  rw [hconfig, hvalidators, hepochCtx] at hiff
  rw [hvalidators]
  exact hiff

end

end

/-! ## An ejection past a queue that has room -/

local instance ejectionPreset : Preset := minimal

/-- The fields of the forks around a cached state. -/
def withForkFields (state : CachedBeaconState (List Nat)) : CachedBeaconStateAltair (List Nat) where
  toCachedBeaconState := state
  blockRoots := Vector.replicate 64 0xb0
  randaoMixes := Vector.replicate 64 0
  justificationBits := #v[false, false, false, false]
  previousJustifiedCheckpoint := state.finalizedCheckpoint
  currentJustifiedCheckpoint := state.finalizedCheckpoint
  epochCache :=
    { previousCommittees := ⟨[], [], 1⟩
      currentCommittees := ⟨[], [], 1⟩
      nextCommittees := ⟨[], [], 1⟩
      proposers := []
      syncParticipantReward := 0
      baseRewardPerIncrement := 0
      currentSyncCommitteeIndexed := none
      nextSyncCommitteeIndexed := none
      syncPeriod := 0 }
  previousEpochParticipation := state.validators.map fun _ => 0
  currentEpochParticipation := state.validators.map fun _ => 0
  currentSyncCommittee := ⟨[], 0⟩
  nextSyncCommittee := ⟨[], 0⟩

/-- The last slot of epoch 10: four of 159 active validators leave at epoch 16, and one more
validator is active from epoch 11. -/
def roomState : RewardedState :=
  { fullQueueState with rewards := .ofTotal 5088 }

/-- The process of the epoch of a state, altair's with no participation. -/
def processOf (state : CachedBeaconState (List Nat)) : EpochProcess :=
  okOr justifyingProcess (withForkFields state).beforeProcessEpoch

/-- The balances at the end of the epoch. -/
def roomBalances : List Nat := 16000000000 :: List.replicate 159 32000000000

/-- The state above in epoch 11, where five may leave per epoch and one validator has come down to
16 ETH. -/
def roomEpoch : RewardedState :=
  finishEpoch roomState
    { processOf roomState.toCachedBeaconState with balances := some roomBalances }

/-- The last slot of epoch 11. -/
def roomNext : RewardedState := { roomEpoch with slot := 95 }

theorem roomNext_run : Relation.ReflTransGen (CacheStep fun _ _ => True) roomState roomNext := by
  have hbefore : (withForkFields roomState.toCachedBeaconState).beforeProcessEpoch =
      .ok (processOf roomState.toCachedBeaconState) :=
    eq_ok_okOr justifyingProcess (by decide +kernel)
  have hepoch : CacheStep (fun _ _ => True) roomState roomEpoch :=
    .epoch roomState roomState.toCachedBeaconState _ _ (some roomBalances) hbefore .refl (by decide)
      (by decide +kernel) trivial
  have hslot : computeEpochAtSlot 95 = computeEpochAtSlot roomEpoch.slot := by decide +kernel
  exact (Relation.ReflTransGen.single hepoch).tail (.registry roomEpoch _ (.slot _ hslot))

/-- The state of a fork at the last slot. -/
def roomEnd : CachedBeaconStateAltair (List Nat) := withForkFields roomNext.toCachedBeaconState

def roomJustified : CachedBeaconStateAllForks (List Nat) :=
  okOr roomEnd.toCachedBeaconStateAllForks
    (processJustificationAndFinalization roomEnd.toCachedBeaconStateAllForks
      (processOf roomNext.toCachedBeaconState))

/-- The exit of the poor validator is set for epoch 17, where the specification sets 16. -/
theorem ejection_ne_spec :
    ∃ (state₀ reached : RewardedState) (state : CachedBeaconStateAltair (List Nat))
      (epochProcess : EpochProcess) (state' : CachedBeaconStateAllForks (List Nat)),
      state₀.Created ∧ Relation.ReflTransGen (CacheStep fun _ _ => True) state₀ reached ∧
      state.toCachedBeaconState = reached.toCachedBeaconState ∧
      FinalityOrder state.toCachedBeaconStateAllForks ∧
      state.beforeProcessEpoch = .ok epochProcess ∧
      processJustificationAndFinalization state.toCachedBeaconStateAllForks epochProcess =
        .ok state' ∧
      (processRegistryUpdates state'.toCachedBeaconState epochProcess).validators ≠
        specProcessRegistryUpdates state.config (computeEpochAtSlot state.slot)
          state'.finalizedCheckpoint.epoch state'.validators := by
  have hfinality : FinalityOrder roomEnd.toCachedBeaconStateAllForks :=
    ⟨le_refl _, le_refl _, by decide +kernel⟩
  have hne : ((processRegistryUpdates roomJustified.toCachedBeaconState
        (processOf roomNext.toCachedBeaconState)).validators.head?.map (·.exitEpoch)) ≠
      ((specProcessRegistryUpdates roomEnd.config (computeEpochAtSlot roomEnd.slot)
        roomJustified.finalizedCheckpoint.epoch roomJustified.validators).head?.map
          (·.exitEpoch)) := by
    decide +kernel
  exact ⟨roomState, roomNext, roomEnd, processOf roomNext.toCachedBeaconState, roomJustified,
    ⟨fullQueueState_created, rfl⟩, roomNext_run, rfl, hfinality,
    eq_ok_okOr justifyingProcess (by decide +kernel),
    eq_ok_okOr roomEnd.toCachedBeaconStateAllForks (by decide +kernel),
    fun heq => hne (by rw [heq])⟩

/-! ## An epoch with an ejection, a mark and an activation -/

/-- A validator of the minimal preset. -/
def registryValidator (effectiveBalance : Nat) (eligibility activation : WithTop Nat) : Validator where
  pubkey := 0
  withdrawalCredentials := 0
  effectiveBalance
  slashed := false
  activationEligibilityEpoch := eligibility
  activationEpoch := activation
  exitEpoch := FAR_FUTURE_EPOCH
  withdrawableEpoch := FAR_FUTURE_EPOCH

/-- The last slot of epoch 3, with one validator to eject, one to mark and one to activate. -/
def registryState : RewardedState where
  config := chainConfigMinimal
  slot := 31
  validators := [registryValidator 32000000000 (0 : Nat) (0 : Nat),
    registryValidator 16000000000 (0 : Nat) (0 : Nat),
    registryValidator 32000000000 FAR_FUTURE_EPOCH FAR_FUTURE_EPOCH,
    registryValidator 32000000000 (1 : Nat) FAR_FUTURE_EPOCH]
  balanceList := [32000000000, 16000000000, 32000000000, 32000000000]
  slashings := List.replicate 64 0
  finalizedCheckpoint := ⟨1, 0⟩
  inactivityScores := [0, 0, 0, 0]
  epochCtx :=
    { previousShuffling := ⟨2, [0, 1]⟩
      currentShuffling := ⟨3, [0, 1]⟩
      nextShuffling := ⟨4, [0, 1]⟩
      effectiveBalanceIncrements := [32, 16, 32, 32] ++ List.replicate 1020 0
      totalActiveBalanceIncrements := 48
      churnLimit := 4
      exitQueueEpoch := 8
      exitQueueChurn := 0
      epoch := 3 }
  rewards := .ofTotal 48

theorem registryState_created : registryState.Created := by
  refine ⟨?_, rfl⟩
  unfold Created
  decide +kernel

def registryEnd : CachedBeaconStateAltair (List Nat) :=
  withForkFields registryState.toCachedBeaconState

def registryJustified : CachedBeaconStateAllForks (List Nat) :=
  okOr registryEnd.toCachedBeaconStateAllForks
    (processJustificationAndFinalization registryEnd.toCachedBeaconStateAllForks
      (processOf registryState.toCachedBeaconState))

/-- The three updates are the specification's. -/
theorem processRegistryUpdates_eq_spec_registryState :
    (processRegistryUpdates registryJustified.toCachedBeaconState
        (processOf registryState.toCachedBeaconState)).validators =
      specProcessRegistryUpdates registryEnd.config (computeEpochAtSlot registryEnd.slot)
        registryJustified.finalizedCheckpoint.epoch registryJustified.validators :=
  (processRegistryUpdates_eq_spec_iff registryState_created .refl rfl
    ⟨le_refl _, le_refl _, by decide +kernel⟩
    (eq_ok_okOr justifyingProcess (by decide +kernel))
    (eq_ok_okOr registryEnd.toCachedBeaconStateAllForks (by decide +kernel))).2
    ⟨by decide +kernel, .inr (.inl (by decide +kernel))⟩

end Lodestar.StateTransition

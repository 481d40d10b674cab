import Lodestar.StateTransition.Processable
import Lodestar.StateTransition.RegistryUpdates

/-!
# Validators along a chain

What becomes of a validator of a state in the states that descend from it: a
slashed one stays slashed, an exit that is set stays as it is, and one that is
set later lies after the epoch of the state. Slashings, exits, ejections and the
epoch cache are steps of their own; everything else writes none of this.
-/

namespace Lodestar.StateTransition

open Lodestar.Base

variable [Preset]

/-! ## Steps -/

/-- What the rest of the state transition does to the registry. -/
structure KeepsExits (validators validators' : List Validator) : Prop where
  kept : ∀ (i : Nat) (validator : Validator), validators[i]? = some validator →
    ∃ validator' : Validator, validators'[i]? = some validator' ∧
      validator'.slashed = validator.slashed ∧ validator'.exitEpoch = validator.exitEpoch ∧
      validator'.withdrawableEpoch = validator.withdrawableEpoch
  appended : ∀ (i : Nat) (validator' : Validator), validators.length ≤ i →
    validators'[i]? = some validator' → validator'.exitEpoch = FAR_FUTURE_EPOCH

/-- A step of the state transition. -/
inductive ChainStep (bls : Signatures) : KeyedBeaconState → KeyedBeaconState → Prop
  | proposerSlashing (verifySignatures : Bool) (fork : ForkName) (state state' : KeyedBeaconState)
      (op : ProposerSlashing)
      (h : processProposerSlashing bls verifySignatures fork state op = .ok state') :
      ChainStep bls state state'
  | attesterSlashing (verifySignatures : Bool) (fork : ForkName) (state state' : KeyedBeaconState)
      (op : AttesterSlashing)
      (h : processAttesterSlashing bls verifySignatures fork state op = .ok state') :
      ChainStep bls state state'
  | voluntaryExit (verifySignature : Bool) (state state' : KeyedBeaconState)
      (op : SignedVoluntaryExit)
      (h : processVoluntaryExitAllForks bls verifySignature state op = .ok state') :
      ChainStep bls state state'
  /-- Ejections and activations. -/
  | registryUpdates (state : KeyedBeaconState) (epochProcess : EpochProcess) :
      ChainStep bls state
        { state with
          toCachedBeaconStateAllForks :=
            { state.toCachedBeaconStateAllForks with
              toCachedBeaconState :=
                processRegistryUpdates state.toCachedBeaconState epochProcess } }
  /-- The end of an epoch transition: the slot is advanced, then the cache. -/
  | epoch (state : KeyedBeaconState) (epochProcess : NextEpoch)
      (hslot : (state.slot + 1) % SLOTS_PER_EPOCH = 0) :
      ChainStep bls state
        { state with
          slot := state.slot + 1
          epochCtx := state.epochCtx.afterProcessEpoch state.config (state.slot + 1) epochProcess }
  /-- The upgrade of a state at a fork, which makes its cache anew. -/
  | upgrade (state : KeyedBeaconState) (epochCtx : EpochContext)
      (hctx : createFromState state.config state.slot state.validators = .ok epochCtx) :
      ChainStep bls state { state with epochCtx }
  /-- Everything else: slots of the epoch, deposits, attestations, balances, checkpoints. -/
  | other (state state' : KeyedBeaconState)
      (hslot : computeEpochAtSlot state'.slot = computeEpochAtSlot state.slot)
      (hctx : ∃ inc, state'.epochCtx = { state.epochCtx with effectiveBalanceIncrements := inc })
      (hvalidators : KeepsExits state.validators state'.validators) :
      ChainStep bls state state'

/-- `state` is on a chain that goes on from `ancestor`. -/
def DescendsFrom (bls : Signatures) (ancestor state : KeyedBeaconState) : Prop :=
  Relation.ReflTransGen (ChainStep bls) ancestor state

/-! ## One validator -/

/-- What `validator` of a state of `epoch` may have become. -/
structure Later (epoch : Nat) (validator validator' : Validator) : Prop where
  slashed : validator.slashed = true → validator'.slashed = true
  exitEpoch : validator'.exitEpoch = validator.exitEpoch ∨
    validator.exitEpoch = FAR_FUTURE_EPOCH ∧ (epoch : WithTop Nat) < validator'.exitEpoch
  withdrawableEpoch : validator.exitEpoch ≠ FAR_FUTURE_EPOCH →
    validator'.withdrawableEpoch = validator.withdrawableEpoch ∨ validator'.slashed = true

namespace Later

variable {epoch : Nat} {v v' v'' : Validator}

omit [Preset] in
theorem of_eq (hslashed : v'.slashed = v.slashed) (hexit : v'.exitEpoch = v.exitEpoch)
    (hwithdrawable : v'.withdrawableEpoch = v.withdrawableEpoch) : Later epoch v v' :=
  ⟨fun h => hslashed.trans h, .inl hexit, fun _ => .inl hwithdrawable⟩

omit [Preset] in
theorem trans (h : Later epoch v v') (h' : Later epoch v' v'') : Later epoch v v'' where
  slashed hs := h'.slashed (h.slashed hs)
  exitEpoch := by
    rcases h.exitEpoch with he | ⟨hfar, hlt⟩ <;> rcases h'.exitEpoch with he' | ⟨hfar', hlt'⟩
    · exact .inl (he'.trans he)
    · exact .inr ⟨he ▸ hfar', hlt'⟩
    · exact .inr ⟨hfar, he' ▸ hlt⟩
    · exact .inr ⟨hfar, hlt'⟩
  withdrawableEpoch hset := by
    have he : v'.exitEpoch = v.exitEpoch := h.exitEpoch.resolve_right fun hfar => hset hfar.1
    rcases h'.withdrawableEpoch (he ▸ hset) with hw' | hs
    · rcases h.withdrawableEpoch hset with hw | hs
      · exact .inl (hw'.trans hw)
      · exact .inr (h'.slashed hs)
    · exact .inr hs

omit [Preset] in
theorem exitEpoch_ne (h : Later epoch v v') (hset : v.exitEpoch ≠ FAR_FUTURE_EPOCH) :
    v'.exitEpoch ≠ FAR_FUTURE_EPOCH := by
  rwa [h.exitEpoch.resolve_right fun hfar => hset hfar.1]

omit [Preset] in
theorem exitEpoch_eq (h : Later epoch v v') (hle : v'.exitEpoch ≤ epoch) :
    v.exitEpoch = v'.exitEpoch := by
  rcases h.exitEpoch with he | ⟨_, hlt⟩
  · exact he.symm
  · exact absurd hle (not_le_of_gt hlt)

omit [Preset] in
theorem initiateValidatorExit (config : ChainConfig) (epochCtx : EpochContext)
    (hqueue : epoch < epochCtx.exitQueueEpoch) (v : Validator) :
    Later epoch v (initiateValidatorExit config epochCtx v).2 := by
  unfold StateTransition.initiateValidatorExit
  by_cases hexit : v.exitEpoch = FAR_FUTURE_EPOCH
  · rw [if_neg (not_not.mpr hexit)]
    refine ⟨id, .inr ⟨hexit, ?_⟩, fun hset => absurd hexit hset⟩
    show (epoch : WithTop Nat) < ((_ : Nat) : WithTop Nat)
    split_ifs
    · exact WithTop.coe_lt_coe.mpr (Nat.lt_succ_of_lt hqueue)
    · exact WithTop.coe_lt_coe.mpr hqueue
  · rw [if_pos hexit]
    exact .of_eq rfl rfl rfl

theorem slashedValidator (v : Validator) (currentEpoch : Nat) :
    Later epoch v (slashedValidator v currentEpoch) where
  slashed _ := rfl
  exitEpoch := .inl rfl
  withdrawableEpoch _ := .inr rfl

end Later

/-! ## The registry -/

/-- `validators'` is the registry of a state that descends from one of `epoch`. -/
structure Since (epoch : Nat) (validators validators' : List Validator) : Prop where
  kept : ∀ (i : Nat) (validator : Validator), validators[i]? = some validator →
    ∃ validator' : Validator, validators'[i]? = some validator' ∧ Later epoch validator validator'
  appended : ∀ (i : Nat) (validator' : Validator), validators.length ≤ i →
    validators'[i]? = some validator' → (epoch : WithTop Nat) < validator'.exitEpoch

namespace Since

variable {epoch : Nat} {vs vs' vs'' : List Validator}

omit [Preset] in
theorem refl (epoch : Nat) (vs : List Validator) : Since epoch vs vs where
  kept _ v hv := ⟨v, hv, .of_eq rfl rfl rfl⟩
  appended _ _ hi hv := absurd (List.getElem?_eq_some_iff.mp hv).1 (Nat.not_lt.mpr hi)

omit [Preset] in
theorem trans (h : Since epoch vs vs') (h' : Since epoch vs' vs'') : Since epoch vs vs'' where
  kept i v hv := by
    obtain ⟨v', hv', hlater⟩ := h.kept i v hv
    obtain ⟨v'', hv'', hlater'⟩ := h'.kept i v' hv'
    exact ⟨v'', hv'', hlater.trans hlater'⟩
  appended i v'' hi hv'' := by
    by_cases hlt : i < vs'.length
    · have hv' := List.getElem?_eq_getElem hlt
      obtain ⟨w, hw, hlater⟩ := h'.kept i _ hv'
      obtain rfl := Option.some.inj (hw.symm.trans hv'')
      rcases hlater.exitEpoch with he | ⟨_, hgt⟩
      · rw [he]
        exact h.appended i _ hi hv'
      · exact hgt
    · exact h'.appended i v'' (Nat.le_of_not_lt hlt) hv''

omit [Preset] in
theorem set {i : Nat} {v v' : Validator} (hv : vs[i]? = some v) (hlater : Later epoch v v') :
    Since epoch vs (vs.set i v') where
  kept j w hw := by
    obtain ⟨hi, _⟩ := List.getElem?_eq_some_iff.mp hv
    by_cases hij : i = j
    · subst hij
      obtain rfl := Option.some.inj (hv.symm.trans hw)
      exact ⟨v', by rw [List.getElem?_set_self hi], hlater⟩
    · exact ⟨w, by rw [List.getElem?_set_ne hij, hw], .of_eq rfl rfl rfl⟩
  appended j w hj hw := by
    have hlt := (List.getElem?_eq_some_iff.mp hw).1
    rw [List.length_set] at hlt
    exact absurd hlt (Nat.not_lt.mpr hj)

omit [Preset] in
theorem of_keepsExits (h : KeepsExits vs vs') : Since epoch vs vs' where
  kept i v hv := by
    obtain ⟨v', hv', hslashed, hexit, hwithdrawable⟩ := h.kept i v hv
    exact ⟨v', hv', .of_eq hslashed hexit hwithdrawable⟩
  appended i v' hi hv' := by
    rw [h.appended i v' hi hv']
    exact WithTop.coe_lt_top epoch

omit [Preset] in
theorem modify {i : Nat} {f : Validator → Validator} (hf : ∀ v, Later epoch v (f v)) :
    Since epoch vs (vs.modify i f) := by
  cases hv : vs[i]? with
  | none =>
    rw [List.modify_eq_self (List.getElem?_eq_none_iff.mp hv)]
    exact .refl _ _
  | some v =>
    rw [List.modify_eq_set_getElem?, hv]
    exact .set hv (hf v)

end Since

/-! ## The epochs of the cache -/

section

variable {β : Type}

/-- What the cache of a state holds, as far as exits go: they are set after its epoch. -/
structure EpochInv (state : CachedBeaconState β) : Prop where
  currentEpoch : state.epochCtx.currentShuffling.epoch = computeEpochAtSlot state.slot
  nextEpoch : state.epochCtx.nextShuffling.epoch = computeEpochAtSlot state.slot + 1
  exitQueueEpoch : computeEpochAtSlot state.slot < state.epochCtx.exitQueueEpoch

/-- A later state of a chain, for what was a state of `epoch`. -/
structure Advance (epoch : Nat) (state state' : CachedBeaconState β) : Prop where
  inv : EpochInv state'
  epoch_le : computeEpochAtSlot state.slot ≤ computeEpochAtSlot state'.slot
  since : Since epoch state.validators state'.validators

theorem EpochInv.of_created {state : CachedBeaconState β} (h : Created state) : EpochInv state := by
  obtain ⟨hcurrent, hnext, -⟩ := createFromState_ok h
  refine ⟨by rw [hcurrent], by rw [hnext], ?_⟩
  have hqueue := (ExitQueueInv.of_created h).queue
  have hle := le_foldl_max (exitEpochs state.validators)
    (computeActivationExitEpoch (computeEpochAtSlot state.slot))
  have hfirst : computeEpochAtSlot state.slot
      < computeActivationExitEpoch (computeEpochAtSlot state.slot) := by
    unfold computeActivationExitEpoch
    omega
  rcases hqueue with hqueue | hqueue
  · have hepoch : state.epochCtx.exitQueueEpoch = _ := congrArg Prod.fst hqueue
    rw [hepoch]
    exact hfirst.trans_le hle
  · have hepoch : state.epochCtx.exitQueueEpoch = _ := congrArg Prod.fst hqueue
    rw [hepoch]
    exact Nat.lt_succ_of_lt (hfirst.trans_le hle)

namespace Advance

variable {epoch : Nat} {state state' state'' : CachedBeaconState β}

theorem refl (hinv : EpochInv state) : Advance epoch state state :=
  ⟨hinv, le_refl _, .refl _ _⟩

theorem trans (h : Advance epoch state state') (h' : Advance epoch state' state'') :
    Advance epoch state state'' :=
  ⟨h'.inv, h.epoch_le.trans h'.epoch_le, h.since.trans h'.since⟩

theorem write (hinv : EpochInv state) (hle : epoch ≤ computeEpochAtSlot state.slot) {i : Nat}
    {v w : Validator} (hv : state.validators[i]? = some v) (hslot : state'.slot = state.slot)
    (hctx : state'.epochCtx = (StateTransition.initiateValidatorExit state.config state.epochCtx v).1)
    (hvalidators : state'.validators = state.validators.set i w)
    (hw : Later epoch (StateTransition.initiateValidatorExit state.config state.epochCtx v).2 w) :
    Advance epoch state state' := by
  have hqueue := hinv.exitQueueEpoch
  have hexit := Later.initiateValidatorExit state.config state.epochCtx (hle.trans_lt hqueue) v
  have hepochs : state'.epochCtx.currentShuffling = state.epochCtx.currentShuffling ∧
      state'.epochCtx.nextShuffling = state.epochCtx.nextShuffling ∧
      state.epochCtx.exitQueueEpoch ≤ state'.epochCtx.exitQueueEpoch := by
    rw [hctx]
    unfold StateTransition.initiateValidatorExit
    split_ifs
    · exact ⟨rfl, rfl, le_refl _⟩
    · exact ⟨rfl, rfl, Nat.le_succ _⟩
    · exact ⟨rfl, rfl, le_refl _⟩
  obtain ⟨hcurrent, hnext, hmono⟩ := hepochs
  refine ⟨⟨?_, ?_, ?_⟩, by rw [hslot], ?_⟩
  · rw [hcurrent, hslot]
    exact hinv.currentEpoch
  · rw [hnext, hslot]
    exact hinv.nextEpoch
  · rw [hslot]
    exact hqueue.trans_le hmono
  · rw [hvalidators]
    exact .set hv (hexit.trans hw)

theorem initiateValidatorExit (hinv : EpochInv state)
    (hle : epoch ≤ computeEpochAtSlot state.slot) (i : Nat) :
    Advance epoch state (state.initiateValidatorExit i) := by
  unfold CachedBeaconState.initiateValidatorExit
  cases hv : state.validators[i]? with
  | none => exact .refl hinv
  | some v => exact write hinv hle hv rfl rfl rfl (.of_eq rfl rfl rfl)

theorem foldl_initiateValidatorExit (hinv : EpochInv state)
    (hle : epoch ≤ computeEpochAtSlot state.slot) (indices : List Nat) :
    Advance epoch state (indices.foldl CachedBeaconState.initiateValidatorExit state) := by
  induction indices generalizing state with
  | nil => exact .refl hinv
  | cons i indices ih =>
    have hfirst : Advance epoch state (state.initiateValidatorExit i) :=
      initiateValidatorExit hinv hle i
    exact hfirst.trans (ih hfirst.inv (hle.trans hfirst.epoch_le))

omit [Preset] in
theorem since_modifyAt (indices : List Nat) {f : Validator → Validator}
    (hf : ∀ v, Later epoch v (f v)) (vs : List Validator) :
    Since epoch vs (modifyAt indices f vs) := by
  induction indices generalizing vs with
  | nil => exact .refl _ _
  | cons i indices ih => exact (Since.modify hf).trans (ih _)

omit [Preset] in
theorem since_processActivations (finalityEpoch activationEpoch : Nat) (indices : List Nat)
    (vs : List Validator) :
    Since epoch vs (processActivations finalityEpoch activationEpoch indices vs) := by
  induction indices generalizing vs with
  | nil => exact .refl _ _
  | cons i indices ih =>
    unfold processActivations
    split
    · split_ifs
      · exact .refl _ _
      · refine Since.trans ?_ (ih _)
        exact .modify fun _ => .of_eq rfl rfl rfl
    · exact .refl _ _

theorem processRegistryUpdates (hinv : EpochInv state)
    (hle : epoch ≤ computeEpochAtSlot state.slot) (epochProcess : EpochProcess) :
    Advance epoch state (processRegistryUpdates state epochProcess) := by
  have heject : Advance epoch state
      (epochProcess.indicesToEject.foldl CachedBeaconState.initiateValidatorExit state) :=
    foldl_initiateValidatorExit hinv hle epochProcess.indicesToEject
  refine heject.trans ⟨⟨heject.inv.currentEpoch, heject.inv.nextEpoch, heject.inv.exitQueueEpoch⟩,
    le_refl _, ?_⟩
  refine Since.trans ?_ (since_processActivations _ _ _ _)
  apply since_modifyAt
  exact fun _ => .of_eq rfl rfl rfl

end Advance

end

/-! ## Operations -/

section

variable {bls : Signatures} {fork : ForkName} {epoch : Nat} {state state' : KeyedBeaconState}

theorem getElem?_of_getValidator {i : Nat} {validator : Validator}
    (h : getValidator state i = .ok validator) : state.validators[i]? = some validator := by
  unfold getValidator at h
  split at h
  · cases h
  · next hget => rw [hget, Except.ok.inj h]

theorem slashValidatorAllForks_eq_ok {i : Nat} {whistleblowerIndex : Option Nat}
    (h : slashValidatorAllForks fork state i whistleblowerIndex = .ok state') :
    ∃ validator, state.validators[i]? = some validator ∧ state'.slot = state.slot ∧
      state'.epochCtx = (initiateValidatorExit state.config state.epochCtx validator).1 ∧
      state'.validators = state.validators.set i
        (slashedValidator (initiateValidatorExit state.config state.epochCtx validator).2
          state.epochCtx.currentShuffling.epoch) := by
  obtain ⟨validator, hvalidator, h⟩ := eq_ok_of_bind h
  obtain ⟨proposer, -, h⟩ := eq_ok_of_bind h
  obtain rfl := Except.ok.inj h
  exact ⟨validator, getElem?_of_getValidator hvalidator, rfl, rfl, rfl⟩

namespace Advance

theorem slashValidator (hinv : EpochInv state.toCachedBeaconState)
    (hle : epoch ≤ computeEpochAtSlot state.slot) {i : Nat} {whistleblowerIndex : Option Nat}
    (h : slashValidatorAllForks fork state i whistleblowerIndex = .ok state') :
    Advance epoch state.toCachedBeaconState state'.toCachedBeaconState := by
  obtain ⟨validator, hvalidator, hslot, hctx, hvalidators⟩ := slashValidatorAllForks_eq_ok h
  exact write hinv hle hvalidator hslot hctx hvalidators (.slashedValidator _ _)

theorem slashIndices (hinv : EpochInv state.toCachedBeaconState)
    (hle : epoch ≤ computeEpochAtSlot state.slot) {indices : List Nat} {any any' : Bool}
    (h : slashIndices fork indices (state, any) = .ok (state', any')) :
    Advance epoch state.toCachedBeaconState state'.toCachedBeaconState := by
  induction indices generalizing state any with
  | nil =>
    obtain ⟨rfl, rfl⟩ := Prod.mk.inj (Except.ok.inj h)
    exact .refl hinv
  | cons i indices ih =>
    obtain ⟨validator, -, h⟩ := eq_ok_of_bind h
    split_ifs at h
    · obtain ⟨next, hnext, h⟩ := eq_ok_of_bind h
      have hfirst : Advance epoch state.toCachedBeaconState next.toCachedBeaconState :=
        slashValidator hinv hle hnext
      exact hfirst.trans (ih hfirst.inv (hle.trans hfirst.epoch_le) h)
    · exact ih hinv hle h

end Advance

theorem ChainStep.advance (hstep : ChainStep bls state state')
    (hinv : EpochInv state.toCachedBeaconState) (hle : epoch ≤ computeEpochAtSlot state.slot) :
    Advance epoch state.toCachedBeaconState state'.toCachedBeaconState := by
  cases hstep with
  | proposerSlashing verifySignatures fork _ _ op h =>
    obtain ⟨⟨⟩, -, h⟩ := eq_ok_of_bind h
    exact .slashValidator hinv hle h
  | attesterSlashing verifySignatures fork _ _ op h =>
    obtain ⟨⟨⟩, -, h⟩ := eq_ok_of_bind h
    obtain ⟨⟨next, any⟩, hslash, h⟩ := eq_ok_of_bind h
    dsimp only at h
    cases any
    · cases h
    · obtain rfl := Except.ok.inj h
      exact .slashIndices hinv hle hslash
  | voluntaryExit verifySignature _ _ op h =>
    obtain ⟨valid, -, h⟩ := eq_ok_of_bind h
    cases valid
    · cases h
    · obtain ⟨validator, hvalidator, h⟩ := eq_ok_of_bind h
      obtain rfl := Except.ok.inj h
      exact .write hinv hle (getElem?_of_getValidator hvalidator) rfl rfl rfl (.of_eq rfl rfl rfl)
  | registryUpdates _ epochProcess => exact .processRegistryUpdates hinv hle epochProcess
  | epoch _ epochProcess hslot =>
    have hepoch := computeEpochAtSlot_succ hslot
    refine ⟨⟨?_, ?_, ?_⟩, ?_, .refl _ _⟩
    · show state.epochCtx.nextShuffling.epoch = _
      rw [hinv.nextEpoch, hepoch]
    · show state.epochCtx.nextShuffling.epoch + 1 = _
      rw [hinv.nextEpoch, hepoch]
    · show computeEpochAtSlot (state.slot + 1) <
        if _ < computeActivationExitEpoch state.epochCtx.nextShuffling.epoch then
          computeActivationExitEpoch state.epochCtx.nextShuffling.epoch else _
      have hnext := hinv.nextEpoch
      unfold computeActivationExitEpoch
      split_ifs <;> omega
    · show _ ≤ computeEpochAtSlot (state.slot + 1)
      omega
  | upgrade _ epochCtx hctx => exact ⟨.of_created hctx, le_refl _, .refl _ _⟩
  | other _ _ hslot hctx hvalidators =>
    obtain ⟨inc, hctx⟩ := hctx
    refine ⟨⟨?_, ?_, ?_⟩, hslot.ge, .of_keepsExits hvalidators⟩ <;> rw [hctx, hslot]
    · exact hinv.currentEpoch
    · exact hinv.nextEpoch
    · exact hinv.exitQueueEpoch

theorem DescendsFrom.advance (h : DescendsFrom bls state state')
    (hinv : EpochInv state.toCachedBeaconState) :
    Advance (computeEpochAtSlot state.slot) state.toCachedBeaconState
      state'.toCachedBeaconState := by
  induction h with
  | refl => exact .refl hinv
  | tail _ hstep ih => exact ih.trans (hstep.advance ih.inv ih.epoch_le)

end

end Lodestar.StateTransition

import Lodestar.StateTransition.Operations

/-!
# Operations that stay processable

An operation that passed its checks on an earlier state of a chain passes them
again as long as its validators are still slashable, or may still exit, and
processing it changes the registry at its validators only.
-/

namespace Lodestar.StateTransition

open Lodestar.Base

variable [Preset] {bls : Signatures} {fork : ForkName} {state state' : KeyedBeaconState}

/-! ## States of a chain -/

/-- What the caches of a state hold: the shuffling of its epoch, and the keys of its registry. -/
structure Cached (state : KeyedBeaconState) : Prop where
  currentEpoch : state.epochCtx.currentShuffling.epoch = computeEpochAtSlot state.slot
  validators_le : state.validators.length ≤ state.index2pubkey.length

/-- A state before `state` on its chain: since then, validators and keys were appended only. -/
structure Earlier (earlier state : KeyedBeaconState) : Prop where
  config_eq : state.config = earlier.config
  slot_le : earlier.slot ≤ state.slot
  validators_le : earlier.validators.length ≤ state.validators.length
  index2pubkey_prefix : earlier.index2pubkey <+: state.index2pubkey

theorem Earlier.refl : Earlier state state :=
  ⟨rfl, le_refl _, le_refl _, List.prefix_rfl⟩

theorem Earlier.trans {earlier : KeyedBeaconState} (h : Earlier earlier state)
    (h' : Earlier state state') : Earlier earlier state' where
  config_eq := h'.config_eq.trans h.config_eq
  slot_le := h.slot_le.trans h'.slot_le
  validators_le := h.validators_le.trans h'.validators_le
  index2pubkey_prefix := h.index2pubkey_prefix.trans h'.index2pubkey_prefix

/-- `state'` is `state` after operations on the validators of `S`. -/
structure Touched (S : Set Nat) (state state' : KeyedBeaconState) : Prop where
  config_eq : state'.config = state.config
  slot_eq : state'.slot = state.slot
  index2pubkey_eq : state'.index2pubkey = state.index2pubkey
  currentShuffling_eq : state'.epochCtx.currentShuffling = state.epochCtx.currentShuffling
  length_eq : state'.validators.length = state.validators.length
  validators_eq : ∀ i ∉ S, state'.validators[i]? = state.validators[i]?

namespace Touched

variable {S T : Set Nat}

theorem refl (S : Set Nat) : Touched S state state :=
  ⟨rfl, rfl, rfl, rfl, rfl, fun _ _ => rfl⟩

theorem trans {state'' : KeyedBeaconState} (h : Touched S state state')
    (h' : Touched T state' state'') : Touched (S ∪ T) state state'' where
  config_eq := h'.config_eq.trans h.config_eq
  slot_eq := h'.slot_eq.trans h.slot_eq
  index2pubkey_eq := h'.index2pubkey_eq.trans h.index2pubkey_eq
  currentShuffling_eq := h'.currentShuffling_eq.trans h.currentShuffling_eq
  length_eq := h'.length_eq.trans h.length_eq
  validators_eq i hi := by
    rw [Set.mem_union, not_or] at hi
    exact (h'.validators_eq i hi.2).trans (h.validators_eq i hi.1)

theorem mono (h : Touched S state state') (hST : S ⊆ T) : Touched T state state' :=
  { h with validators_eq := fun i hi => h.validators_eq i fun hS => hi (hST hS) }

theorem cached (h : Touched S state state') (hcached : Cached state) : Cached state' where
  currentEpoch := by
    rw [h.currentShuffling_eq, h.slot_eq]
    exact hcached.currentEpoch
  validators_le := by
    rw [h.length_eq, h.index2pubkey_eq]
    exact hcached.validators_le

theorem earlier (h : Touched S state state') : Earlier state state' where
  config_eq := h.config_eq
  slot_le := h.slot_eq.ge
  validators_le := h.length_eq.ge
  index2pubkey_prefix := h.index2pubkey_eq ▸ List.prefix_rfl

theorem getValidator_eq (h : Touched S state state') {i : Nat} (hi : i ∉ S) :
    getValidator state' i = getValidator state i := by
  rw [getValidator, getValidator, h.validators_eq i hi]

end Touched

/-! ## Reads -/

theorem getValidator_eq_ok {i : Nat} (hi : i < state.validators.length) :
    getValidator state i = .ok state.validators[i] := by
  rw [getValidator, List.getElem?_eq_getElem hi]

theorem lt_of_getValidator {i : Nat} {validator : Validator}
    (h : getValidator state i = .ok validator) : i < state.validators.length := by
  unfold getValidator at h
  split at h
  · cases h
  · next hget => exact (List.getElem?_eq_some_iff.mp hget).1

theorem Cached.getBeaconProposer_isOk (hcached : Cached state) :
    ∃ proposer, getBeaconProposer state.toCachedBeaconStateAllForks state.slot = .ok proposer := by
  rw [getBeaconProposer, if_neg (not_not.mpr hcached.currentEpoch.symm)]
  exact ⟨_, rfl⟩

theorem Earlier.pubkey_eq {earlier : KeyedBeaconState} (h : Earlier earlier state)
    (hcached : Cached earlier) {i : Nat} (hi : i < earlier.validators.length) :
    state.index2pubkey[i]? = earlier.index2pubkey[i]? := by
  obtain ⟨keys, hkeys⟩ := h.index2pubkey_prefix
  rw [← hkeys, List.getElem?_append_left (hi.trans_le hcached.validators_le)]

/-- The validator of an index that may be slashed. -/
def slashable (state : KeyedBeaconState) (i : Nat) : Bool :=
  state.validators[i]?.any (isSlashableValidator · state.epochCtx.currentShuffling.epoch)

theorem slashable_iff {i : Nat} :
    slashable state i = true ↔ ∃ validator, getValidator state i = .ok validator ∧
      isSlashableValidator validator state.epochCtx.currentShuffling.epoch = true := by
  unfold slashable getValidator
  cases state.validators[i]? <;> simp

theorem lt_of_slashable {i : Nat} (h : slashable state i = true) : i < state.validators.length := by
  obtain ⟨validator, hvalidator, _⟩ := slashable_iff.mp h
  exact lt_of_getValidator hvalidator

theorem Touched.slashable_eq {S : Set Nat} (h : Touched S state state') {i : Nat} (hi : i ∉ S) :
    slashable state' i = slashable state i := by
  rw [slashable, slashable, h.validators_eq i hi, h.currentShuffling_eq]

/-! ## Slashing and exiting -/

omit [Preset] in
theorem initiateValidatorExit_currentShuffling (config : ChainConfig) (epochCtx : EpochContext)
    (validator : Validator) :
    (initiateValidatorExit config epochCtx validator).1.currentShuffling
      = epochCtx.currentShuffling := by
  unfold initiateValidatorExit
  split_ifs <;> rfl

theorem touched_set {i : Nat} {validator : Validator} {epochCtx : EpochContext}
    (hctx : epochCtx.currentShuffling = state.epochCtx.currentShuffling)
    (hstate : state'.config = state.config ∧ state'.slot = state.slot
      ∧ state'.index2pubkey = state.index2pubkey ∧ state'.epochCtx = epochCtx
      ∧ state'.validators = state.validators.set i validator) :
    Touched {i} state state' := by
  obtain ⟨hconfig, hslot, hkeys, hepochCtx, hvalidators⟩ := hstate
  refine ⟨hconfig, hslot, hkeys, by rw [hepochCtx, hctx], ?_, ?_⟩
  · rw [hvalidators, List.length_set]
  · intro j hj
    rw [hvalidators, List.getElem?_set_ne]
    exact fun hij => hj hij.symm

theorem slashValidatorAllForks_ok (fork : ForkName) (hcached : Cached state) {i : Nat}
    (hi : i < state.validators.length) :
    ∃ state', slashValidatorAllForks fork state i none = .ok state' ∧ Touched {i} state state' := by
  obtain ⟨proposer, hproposer⟩ := hcached.getBeaconProposer_isOk
  simp only [slashValidatorAllForks, getValidator_eq_ok hi, hproposer, bind, Except.bind]
  refine ⟨_, rfl, ?_⟩
  exact touched_set (initiateValidatorExit_currentShuffling _ _ _) ⟨rfl, rfl, rfl, rfl, rfl⟩

/-! ## Proposer slashings -/

section

variable {earlier : KeyedBeaconState}

theorem getProposerSlashingSignatureSets_eq (h : Earlier earlier state) (hcached : Cached earlier)
    {proposerSlashing : ProposerSlashing}
    (hi : proposerSlashing.signedHeader1.message.proposerIndex < earlier.validators.length) :
    bls.getProposerSlashingSignatureSets state proposerSlashing
      = bls.getProposerSlashingSignatureSets earlier proposerSlashing := by
  simp only [Signatures.getProposerSlashingSignatureSets, h.pubkey_eq hcached hi, h.config_eq]

theorem assertValidProposerSlashing_eq_ok {proposerSlashing : ProposerSlashing}
    (h : assertValidProposerSlashing bls state proposerSlashing true = .ok ()) :
    assertSlashableHeaders proposerSlashing.signedHeader1.message
        proposerSlashing.signedHeader2.message = .ok () ∧
      proposerSlashing.signedHeader1.message.proposerIndex < state.validators.length ∧
      verifyHeaderSignatures bls
        (bls.getProposerSlashingSignatureSets state proposerSlashing).zipIdx = .ok () := by
  obtain ⟨⟨⟩, hheaders, h⟩ := eq_ok_of_bind h
  obtain ⟨proposer, hproposer, h⟩ := eq_ok_of_bind h
  refine ⟨hheaders, lt_of_getValidator hproposer, ?_⟩
  by_cases hslashable : isSlashableValidator proposer state.epochCtx.currentShuffling.epoch = false
  · simp [hslashable] at h
    cases h
  · simpa [hslashable] using h

theorem assertValidProposerSlashing_of_earlier (hearlier : Earlier earlier state)
    (hcached : Cached earlier) {proposerSlashing : ProposerSlashing}
    (h : assertValidProposerSlashing bls earlier proposerSlashing true = .ok ())
    {proposer : Validator}
    (hproposer : getValidator state proposerSlashing.signedHeader1.message.proposerIndex
      = .ok proposer)
    (hslashable : isSlashableValidator proposer state.epochCtx.currentShuffling.epoch = true)
    (verifySignatures : Bool) :
    assertValidProposerSlashing bls state proposerSlashing verifySignatures = .ok () := by
  obtain ⟨hheaders, hi, hsignatures⟩ := assertValidProposerSlashing_eq_ok h
  rw [← getProposerSlashingSignatureSets_eq hearlier hcached hi] at hsignatures
  unfold assertValidProposerSlashing
  simp only [hheaders, hproposer, hslashable, bind, Except.bind]
  cases verifySignatures
  · rfl
  · simpa using hsignatures

/-! ## Attester slashings -/

omit [Preset] in
theorem le_getLastD_of_isChain {indices : List Nat} (h : indices.IsChain (· < ·)) {i : Nat}
    (hi : i ∈ indices) : i ≤ indices.getLastD 0 := by
  induction indices using List.reverseRecOn with
  | nil => exact absurd hi List.not_mem_nil
  | append_singleton indices last _ =>
    have hpairwise := List.pairwise_append.mp (List.isChain_iff_pairwise.mp h)
    rw [List.getLastD_concat]
    rcases List.mem_append.mp hi with hi | hi
    · exact (hpairwise.2.2 i hi last List.mem_cons_self).le
    · exact (List.mem_singleton.mp hi).le

theorem isValidIndexedAttestation_eq_ok {attestation : IndexedAttestation}
    (h : isValidIndexedAttestation bls state attestation true = .ok true) :
    (0 < attestation.attestingIndices.length ∧
        attestation.attestingIndices.length ≤ MAX_VALIDATORS_PER_COMMITTEE) ∧
      attestation.attestingIndices.IsChain (· < ·) ∧
      attestation.attestingIndices.getLastD 0 < state.validators.length ∧
      bls.verifySignatureSet (bls.getIndexedAttestationSignatureSet state attestation
        attestation.attestingIndices) = .ok true := by
  unfold isValidIndexedAttestation at h
  dsimp only at h
  split_ifs at h with hlength hchain hlast hverify
  · cases h
  · exact hverify.elim
  · exact ⟨hlength, hchain, Nat.lt_of_not_le hlast, h⟩
  · cases h
  · cases h

theorem getIndexedAttestationSignatureSet_eq (h : Earlier earlier state) (hcached : Cached earlier)
    {attestation : IndexedAttestation}
    (hindices : ∀ i ∈ attestation.attestingIndices, i < earlier.validators.length) :
    bls.getIndexedAttestationSignatureSet state attestation attestation.attestingIndices
      = bls.getIndexedAttestationSignatureSet earlier attestation attestation.attestingIndices := by
  have hpubkeys : (attestation.attestingIndices.map fun i => state.index2pubkey[i]?)
      = attestation.attestingIndices.map fun i => earlier.index2pubkey[i]? :=
    List.map_congr_left fun i hi => h.pubkey_eq hcached (hindices i hi)
  simp only [Signatures.getIndexedAttestationSignatureSet, hpubkeys, h.config_eq]

theorem isValidIndexedAttestation_of_earlier (hearlier : Earlier earlier state)
    (hcached : Cached earlier) {attestation : IndexedAttestation}
    (h : isValidIndexedAttestation bls earlier attestation true = .ok true)
    (verifySignature : Bool) :
    isValidIndexedAttestation bls state attestation verifySignature = .ok true := by
  obtain ⟨hlength, hchain, hlast, hsignature⟩ := isValidIndexedAttestation_eq_ok h
  have hindices : ∀ i ∈ attestation.attestingIndices, i < earlier.validators.length :=
    fun i hi => (le_getLastD_of_isChain hchain hi).trans_lt hlast
  rw [← getIndexedAttestationSignatureSet_eq hearlier hcached hindices] at hsignature
  have hlast' : ¬ state.validators.length ≤ attestation.attestingIndices.getLastD 0 :=
    Nat.not_le.mpr (hlast.trans_le hearlier.validators_le)
  unfold isValidIndexedAttestation
  rw [if_neg (not_not.mpr hlength), if_neg (not_not.mpr hchain), if_neg hlast', hsignature]
  split_ifs <;> rfl

theorem assertValidAttesterSlashing_eq_ok {attesterSlashing : AttesterSlashing}
    (h : assertValidAttesterSlashing bls state attesterSlashing true = .ok ()) :
    isSlashableAttestationData attesterSlashing.attestation1.data
        attesterSlashing.attestation2.data = true ∧
      isValidIndexedAttestation bls state attesterSlashing.attestation1 true = .ok true ∧
      isValidIndexedAttestation bls state attesterSlashing.attestation2 true = .ok true := by
  unfold assertValidAttesterSlashing at h
  by_cases hdata : isSlashableAttestationData attesterSlashing.attestation1.data
      attesterSlashing.attestation2.data = false
  · simp [hdata] at h
    cases h
  · simp only [hdata] at h
    obtain ⟨valid1, h1, h⟩ := eq_ok_of_bind h
    cases valid1
    · cases h
    · obtain ⟨valid2, h2, h⟩ := eq_ok_of_bind h
      cases valid2
      · cases h
      · exact ⟨eq_true_of_ne_false hdata, h1, h2⟩

theorem assertValidAttesterSlashing_of_earlier (hearlier : Earlier earlier state)
    (hcached : Cached earlier) {attesterSlashing : AttesterSlashing}
    (h : assertValidAttesterSlashing bls earlier attesterSlashing true = .ok ())
    (verifySignatures : Bool) :
    assertValidAttesterSlashing bls state attesterSlashing verifySignatures = .ok () := by
  obtain ⟨hdata, h1, h2⟩ := assertValidAttesterSlashing_eq_ok h
  have h1 := isValidIndexedAttestation_of_earlier hearlier hcached h1 verifySignatures
  have h2 := isValidIndexedAttestation_of_earlier hearlier hcached h2 verifySignatures
  simp only [assertValidAttesterSlashing, hdata, h1, h2, bind, Except.bind]
  rfl

theorem getAttesterSlashableIndices_of_valid {attesterSlashing : AttesterSlashing}
    (h : assertValidAttesterSlashing bls state attesterSlashing true = .ok ()) :
    (getAttesterSlashableIndices attesterSlashing).Nodup ∧
      ∀ i ∈ getAttesterSlashableIndices attesterSlashing, i < state.validators.length := by
  obtain ⟨_, hchain, hlast, _⟩ :=
    isValidIndexedAttestation_eq_ok (assertValidAttesterSlashing_eq_ok h).2.2
  have hsublist := List.filter_sublist (l := attesterSlashing.attestation2.attestingIndices)
    (p := (· ∈ attesterSlashing.attestation1.attestingIndices))
  constructor
  · exact ((List.isChain_iff_pairwise.mp hchain).imp Nat.ne_of_lt).sublist hsublist
  · intro i hi
    exact (le_getLastD_of_isChain hchain (hsublist.subset hi)).trans_lt hlast

theorem slashIndices_ok (fork : ForkName) {indices : List Nat} (hcached : Cached state)
    (hnodup : indices.Nodup) (hindices : ∀ i ∈ indices, i < state.validators.length)
    (slashedAny : Bool) :
    ∃ state', slashIndices fork indices (state, slashedAny)
        = .ok (state', slashedAny || indices.any (slashable state)) ∧
      Touched {i | i ∈ indices ∧ slashable state i = true} state state' := by
  induction indices generalizing state slashedAny with
  | nil => exact ⟨state, by simp [slashIndices], .refl _⟩
  | cons i indices ih =>
    obtain ⟨hi, hnodup⟩ := List.nodup_cons.mp hnodup
    obtain ⟨hlt, hindices⟩ := List.forall_mem_cons.mp hindices
    have hget := getValidator_eq_ok hlt
    rw [slashIndices, hget]
    by_cases hslashable : slashable state i = true
    · have hvalidator : isSlashableValidator state.validators[i]
          state.epochCtx.currentShuffling.epoch = true := by
        simpa [slashable, List.getElem?_eq_getElem hlt] using hslashable
      obtain ⟨state₁, hslash, htouched⟩ := slashValidatorAllForks_ok fork hcached hlt
      have hsame : ∀ j ∈ indices, slashable state₁ j = slashable state j := by
        intro j hj
        apply htouched.slashable_eq
        rintro rfl
        exact hi hj
      obtain ⟨state', hloop, htouched'⟩ := ih (htouched.cached hcached) hnodup
        (fun j hj => htouched.length_eq.symm ▸ hindices j hj) true
      refine ⟨state', ?_, (htouched.trans htouched').mono ?_⟩
      · show (if isSlashableValidator state.validators[i] _ = true then _ else _) = _
        rw [if_pos hvalidator, hslash]
        show slashIndices fork indices (state₁, true) = _
        rw [hloop]
        simp [hslashable]
      · rintro j (rfl | ⟨hj, hslashable'⟩)
        · exact ⟨List.mem_cons_self, hslashable⟩
        · exact ⟨List.mem_cons_of_mem i hj, hsame j hj ▸ hslashable'⟩
    · have hvalidator : ¬ isSlashableValidator state.validators[i]
          state.epochCtx.currentShuffling.epoch = true := by
        simpa [slashable, List.getElem?_eq_getElem hlt] using hslashable
      obtain ⟨state', hloop, htouched⟩ := ih hcached hnodup hindices slashedAny
      refine ⟨state', ?_, htouched.mono ?_⟩
      · show (if isSlashableValidator state.validators[i] _ = true then _ else _) = _
        rw [if_neg hvalidator, hloop]
        simp [hslashable]
      · rintro j ⟨hj, hslashable'⟩
        exact ⟨List.mem_cons_of_mem i hj, hslashable'⟩

/-! ## Voluntary exits -/

theorem getVoluntaryExitSignatureSet_eq (h : Earlier earlier state) (hcached : Cached earlier)
    {voluntaryExit : SignedVoluntaryExit}
    (hi : voluntaryExit.message.validatorIndex < earlier.validators.length) :
    bls.getVoluntaryExitSignatureSet state voluntaryExit
      = bls.getVoluntaryExitSignatureSet earlier voluntaryExit := by
  simp only [Signatures.getVoluntaryExitSignatureSet, h.pubkey_eq hcached hi, h.config_eq]

theorem isValidVoluntaryExit_eq_ok {voluntaryExit : SignedVoluntaryExit}
    (h : isValidVoluntaryExit bls state voluntaryExit true = .ok true) :
    voluntaryExit.message.validatorIndex < state.validators.length ∧
      bls.verifySignatureSet (bls.getVoluntaryExitSignatureSet state voluntaryExit)
        = .ok true := by
  obtain ⟨validator, hvalidator, h⟩ := eq_ok_of_bind h
  refine ⟨lt_of_getValidator hvalidator, ?_⟩
  dsimp only at h
  split_ifs at h with hexit hverify
  · exact h
  · exact absurd rfl hverify
  · cases h

theorem isValidVoluntaryExit_of_earlier (hearlier : Earlier earlier state)
    (hcached : Cached earlier) {voluntaryExit : SignedVoluntaryExit}
    (h : isValidVoluntaryExit bls earlier voluntaryExit true = .ok true)
    (hvalid : isValidVoluntaryExit bls state voluntaryExit false = .ok true)
    (verifySignature : Bool) :
    isValidVoluntaryExit bls state voluntaryExit verifySignature = .ok true := by
  obtain ⟨hi, hsignature⟩ := isValidVoluntaryExit_eq_ok h
  rw [← getVoluntaryExitSignatureSet_eq hearlier hcached hi] at hsignature
  cases verifySignature
  · exact hvalid
  · obtain ⟨validator, hvalidator, hvalid⟩ := eq_ok_of_bind hvalid
    unfold isValidVoluntaryExit
    dsimp only at hvalid
    split_ifs at hvalid with hexit hverify
    · exact hverify.elim
    · simp only [hvalidator, bind, Except.bind, if_pos hexit, hsignature]
      rfl
    · cases hvalid

theorem Touched.isValidVoluntaryExit_eq {S : Set Nat} (h : Touched S state state')
    {voluntaryExit : SignedVoluntaryExit} (hi : voluntaryExit.message.validatorIndex ∉ S) :
    isValidVoluntaryExit bls state' voluntaryExit false
      = isValidVoluntaryExit bls state voluntaryExit false := by
  simp only [isValidVoluntaryExit, h.getValidator_eq hi, h.currentShuffling_eq, h.config_eq,
    Bool.false_eq_true, if_false]

theorem processVoluntaryExitAllForks_ok {voluntaryExit : SignedVoluntaryExit}
    {verifySignature : Bool}
    (h : isValidVoluntaryExit bls state voluntaryExit verifySignature = .ok true) :
    ∃ state', processVoluntaryExitAllForks bls verifySignature state voluntaryExit = .ok state' ∧
      Touched {voluntaryExit.message.validatorIndex} state state' := by
  obtain ⟨validator, hvalidator, _⟩ := eq_ok_of_bind h
  simp only [processVoluntaryExitAllForks, h, hvalidator, bind, Except.bind]
  refine ⟨_, rfl, ?_⟩
  exact touched_set (initiateValidatorExit_currentShuffling _ _ _) ⟨rfl, rfl, rfl, rfl, rfl⟩

end

/-! ## The operations of a block -/

/-- `check` went through on an earlier state of the chain. -/
def ValidatedBefore (state : KeyedBeaconState) (check : KeyedBeaconState → Prop) : Prop :=
  ∃ earlier, Cached earlier ∧ Earlier earlier state ∧ check earlier

theorem ValidatedBefore.later {check : KeyedBeaconState → Prop} (h : ValidatedBefore state check)
    (hstate : Earlier state state') : ValidatedBefore state' check := by
  obtain ⟨earlier, hcached, hearlier, hcheck⟩ := h
  exact ⟨earlier, hcached, hearlier.trans hstate, hcheck⟩

variable (fork) (verifySignatures : Bool)

theorem processProposerSlashing_ok (hcached : Cached state) {proposerSlashing : ProposerSlashing}
    (hvalid : ValidatedBefore state fun earlier =>
      assertValidProposerSlashing bls earlier proposerSlashing true = .ok ())
    (hslashable : slashable state proposerSlashing.signedHeader1.message.proposerIndex = true) :
    ∃ state', processProposerSlashing bls verifySignatures fork state proposerSlashing = .ok state' ∧
      Touched {proposerSlashing.signedHeader1.message.proposerIndex} state state' := by
  obtain ⟨earlier, hcachedEarlier, hearlier, hvalid⟩ := hvalid
  obtain ⟨proposer, hproposer, hproposerSlashable⟩ := slashable_iff.mp hslashable
  obtain ⟨state', hslash, htouched⟩ :=
    slashValidatorAllForks_ok fork hcached (lt_of_slashable hslashable)
  refine ⟨state', ?_, htouched⟩
  unfold processProposerSlashing
  rw [assertValidProposerSlashing_of_earlier hearlier hcachedEarlier hvalid hproposer
    hproposerSlashable]
  exact hslash

theorem processProposerSlashings_ok {l : List ProposerSlashing} (hcached : Cached state)
    (hnodup : (l.map (·.signedHeader1.message.proposerIndex)).Nodup)
    (hvalid : ∀ proposerSlashing ∈ l, ValidatedBefore state fun earlier =>
      assertValidProposerSlashing bls earlier proposerSlashing true = .ok ())
    (hslashable : ∀ proposerSlashing ∈ l,
      slashable state proposerSlashing.signedHeader1.message.proposerIndex = true) :
    ∃ state', l.foldlM (processProposerSlashing bls verifySignatures fork) state = .ok state' ∧
      Touched {i | i ∈ l.map (·.signedHeader1.message.proposerIndex)} state state' := by
  induction l generalizing state with
  | nil => exact ⟨state, rfl, .refl _⟩
  | cons proposerSlashing l ih =>
    obtain ⟨hnew, hnodup⟩ := List.nodup_cons.mp hnodup
    obtain ⟨hvalid₁, hvalid⟩ := List.forall_mem_cons.mp hvalid
    obtain ⟨hslashable₁, hslashable⟩ := List.forall_mem_cons.mp hslashable
    obtain ⟨state₁, hprocess, htouched⟩ := processProposerSlashing_ok fork verifySignatures
      hcached hvalid₁ hslashable₁
    have hrestSlashable : ∀ p ∈ l,
        slashable state₁ p.signedHeader1.message.proposerIndex = true := by
      intro p hp
      rw [htouched.slashable_eq]
      · exact hslashable p hp
      · rintro hsame
        exact hnew (List.mem_map.mpr ⟨p, hp, hsame⟩)
    obtain ⟨state', hrest, htouched'⟩ := ih (htouched.cached hcached) hnodup
      (fun p hp => (hvalid p hp).later htouched.earlier) hrestSlashable
    refine ⟨state', ?_, (htouched.trans htouched').mono ?_⟩
    · rw [List.foldlM_cons, hprocess]
      exact hrest
    · rintro i (rfl | hi)
      · exact List.mem_cons_self
      · exact List.mem_cons_of_mem _ hi

theorem processAttesterSlashing_ok (hcached : Cached state) {attesterSlashing : AttesterSlashing}
    (hvalid : ValidatedBefore state fun earlier =>
      assertValidAttesterSlashing bls earlier attesterSlashing true = .ok ())
    (hslashable : ∃ i ∈ getAttesterSlashableIndices attesterSlashing, slashable state i = true) :
    ∃ state', processAttesterSlashing bls verifySignatures fork state attesterSlashing = .ok state' ∧
      Touched {i | i ∈ getAttesterSlashableIndices attesterSlashing ∧ slashable state i = true}
        state state' := by
  obtain ⟨earlier, hcachedEarlier, hearlier, hvalid⟩ := hvalid
  obtain ⟨hnodup, hindices⟩ := getAttesterSlashableIndices_of_valid hvalid
  have hperm := List.mergeSort_perm (getAttesterSlashableIndices attesterSlashing) (· ≤ ·)
  have hlt : ∀ i ∈ (getAttesterSlashableIndices attesterSlashing).mergeSort,
      i < state.validators.length :=
    fun i hi => (hindices i (hperm.mem_iff.mp hi)).trans_le hearlier.validators_le
  obtain ⟨state', hloop, htouched⟩ :=
    slashIndices_ok fork hcached (hperm.nodup_iff.mpr hnodup) hlt false
  have hany : (getAttesterSlashableIndices attesterSlashing).mergeSort.any (slashable state)
      = true := by
    obtain ⟨i, hi, hslashable⟩ := hslashable
    exact List.any_eq_true.mpr ⟨i, hperm.mem_iff.mpr hi, hslashable⟩
  refine ⟨state', ?_, htouched.mono ?_⟩
  · unfold processAttesterSlashing
    rw [assertValidAttesterSlashing_of_earlier hearlier hcachedEarlier hvalid]
    show (slashIndices fork _ (state, false) >>= _) = _
    rw [hloop, hany]
    rfl
  · rintro i ⟨hi, hslashable⟩
    exact ⟨hperm.mem_iff.mp hi, hslashable⟩

/-- Attester slashings with a validator to slash each, that no slashing before them slashes. -/
theorem processAttesterSlashings_ok {l : List AttesterSlashing} (hcached : Cached state)
    (hvalid : ∀ attesterSlashing ∈ l, ValidatedBefore state fun earlier =>
      assertValidAttesterSlashing bls earlier attesterSlashing true = .ok ())
    (hslashable : ∀ attesterSlashing ∈ l,
      ∃ i ∈ getAttesterSlashableIndices attesterSlashing, slashable state i = true)
    (hapart : l.Pairwise fun a b => ∀ i ∈ getAttesterSlashableIndices b,
      ¬ (i ∈ getAttesterSlashableIndices a ∧ slashable state i = true)) :
    ∃ state', l.foldlM (processAttesterSlashing bls verifySignatures fork) state = .ok state' ∧
      Touched {i | ∃ a ∈ l, i ∈ getAttesterSlashableIndices a ∧ slashable state i = true}
        state state' := by
  induction l generalizing state with
  | nil => exact ⟨state, rfl, .refl _⟩
  | cons attesterSlashing l ih =>
    obtain ⟨hapart₁, hapart⟩ := List.pairwise_cons.mp hapart
    obtain ⟨hvalid₁, hvalid⟩ := List.forall_mem_cons.mp hvalid
    obtain ⟨hslashable₁, hslashable⟩ := List.forall_mem_cons.mp hslashable
    obtain ⟨state₁, hprocess, htouched⟩ := processAttesterSlashing_ok fork verifySignatures
      hcached hvalid₁ hslashable₁
    -- the slashings that follow see their validators unchanged
    have hsame : ∀ a ∈ l, ∀ i ∈ getAttesterSlashableIndices a,
        slashable state₁ i = slashable state i :=
      fun a ha i hi => htouched.slashable_eq (hapart₁ a ha i hi)
    have hrestSlashable : ∀ a ∈ l,
        ∃ i ∈ getAttesterSlashableIndices a, slashable state₁ i = true := by
      intro a ha
      obtain ⟨i, hi, hslash⟩ := hslashable a ha
      exact ⟨i, hi, (hsame a ha i hi).trans hslash⟩
    have hrestApart : l.Pairwise fun a b => ∀ i ∈ getAttesterSlashableIndices b,
        ¬ (i ∈ getAttesterSlashableIndices a ∧ slashable state₁ i = true) := by
      apply hapart.imp_of_mem
      intro a b ha hb hab i hi
      rw [hsame b hb i hi]
      exact hab i hi
    obtain ⟨state', hrest, htouched'⟩ := ih (htouched.cached hcached)
      (fun a ha => (hvalid a ha).later htouched.earlier) hrestSlashable hrestApart
    refine ⟨state', ?_, (htouched.trans htouched').mono ?_⟩
    · rw [List.foldlM_cons, hprocess]
      exact hrest
    · rintro i (hi | ⟨a, ha, hi, hslash⟩)
      · exact ⟨attesterSlashing, List.mem_cons_self, hi⟩
      · exact ⟨a, List.mem_cons_of_mem _ ha, hi, hsame a ha i hi ▸ hslash⟩

theorem processVoluntaryExits_ok {l : List SignedVoluntaryExit}
    (hnodup : (l.map (·.message.validatorIndex)).Nodup)
    (hbefore : ∀ voluntaryExit ∈ l, ValidatedBefore state fun earlier =>
      isValidVoluntaryExit bls earlier voluntaryExit true = .ok true)
    (hvalid : ∀ voluntaryExit ∈ l, isValidVoluntaryExit bls state voluntaryExit false = .ok true) :
    ∃ state', l.foldlM (processVoluntaryExitAllForks bls verifySignatures) state = .ok state' := by
  induction l generalizing state with
  | nil => exact ⟨state, rfl⟩
  | cons voluntaryExit l ih =>
    obtain ⟨hnew, hnodup⟩ := List.nodup_cons.mp hnodup
    obtain ⟨hbefore₁, hbefore⟩ := List.forall_mem_cons.mp hbefore
    obtain ⟨hvalid₁, hvalid⟩ := List.forall_mem_cons.mp hvalid
    obtain ⟨earlier, hcachedEarlier, hearlier, hvalidEarlier⟩ := hbefore₁
    obtain ⟨state₁, hprocess, htouched⟩ := processVoluntaryExitAllForks_ok
      (isValidVoluntaryExit_of_earlier hearlier hcachedEarlier hvalidEarlier hvalid₁
        verifySignatures)
    have hrestValid : ∀ e ∈ l, isValidVoluntaryExit bls state₁ e false = .ok true := by
      intro e he
      rw [htouched.isValidVoluntaryExit_eq]
      · exact hvalid e he
      · rintro hsame
        exact hnew (List.mem_map.mpr ⟨e, he, hsame⟩)
    obtain ⟨state', hrest⟩ := ih hnodup
      (fun e he => (hbefore e he).later htouched.earlier) hrestValid
    refine ⟨state', ?_⟩
    rw [List.foldlM_cons, hprocess]
    exact hrest

end Lodestar.StateTransition

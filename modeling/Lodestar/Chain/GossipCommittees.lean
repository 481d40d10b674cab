import Lodestar.Chain.SeenOnce

/-!
# What an accepted attestation establishes

Against the state of the attested block: the committee, the bits and the
subnet, and that a later block of its chain may include it. An aggregate is
zipped with its committee whatever the number of its bits.
-/

namespace Lodestar.Chain

open Lodestar.Base Lodestar.StateTransition
open Lodestar.ForkChoice (IProtoBlock)

section

variable [Preset] {β : Type}

/-! ## What pools and blocks assume -/

/-- `compute_subnet_for_attestation` of the specification. -/
def Spec.computeSubnetForAttestation (committeesPerSlot slot committeeIndex : Nat) : Nat :=
  let slotsSinceEpochStart := slot % SLOTS_PER_EPOCH
  let committeesSinceEpochStart := committeesPerSlot * slotsSinceEpochStart
  (committeesSinceEpochStart + committeeIndex) % ATTESTATION_SUBNET_COUNT

/-- The attesting indices are the members of the committee whose bit is set. -/
structure AttestingMembers (committee : List Nat) (aggregationBits : List Bool)
    (attestingIndices : List Nat) : Prop where
  sublist : attestingIndices.Sublist committee
  mem_iff : ∀ index, index ∈ attestingIndices ↔
    ∃ i : Nat, aggregationBits[i]? = some true ∧ committee[i]? = some index

/-- Blocks on the state may include the attestation, once its slot allows it. -/
def Includable (state : CachedBeaconStateAllForks β) (attestation : Attestation) : Prop :=
  ∀ state', Descends state state' →
    attestation.data.slot + MIN_ATTESTATION_INCLUSION_DELAY ≤ state'.slot →
    state'.slot ≤ attestation.data.slot + SLOTS_PER_EPOCH →
    validateAttestation state' attestation = .ok ()

/-- What is assumed of an attestation that gossip let through. -/
structure Established (state : CachedBeaconStateAllForks β) (attestation : Attestation)
    (attestingIndices : List Nat) : Prop where
  count : ∃ committeeCount,
    getCommitteeCountPerSlot state attestation.data.target.epoch = .ok committeeCount ∧
      attestation.data.index < committeeCount
  committee : ∃ committee,
    getBeaconCommittee state attestation.data.slot attestation.data.index = .ok committee ∧
      attestation.aggregationBits.length = committee.length ∧
      AttestingMembers committee attestation.aggregationBits attestingIndices
  includable : Includable state attestation

/-- The state is the regenerated one of the attested block. -/
def AttestedState (chain : GossipChain) (data : AttestationData)
    (answers : Answers GossipQuery (GossipAnswer β)) (state : CachedBeaconStateAllForks β) : Prop :=
  ∃ headBlock, chain.getBlock data.beaconBlockRoot = some headBlock ∧
    ⟨.getState headBlock.stateRoot, .ok state⟩ ∈ answers

structure AttestationAccepted (state : CachedBeaconStateAllForks β) (args : AttestationCall)
    (result : AttestationValidationResult) : Prop where
  data : result.indexedAttestation.data = args.attestation.data
  established : Established state args.attestation result.indexedAttestation.attestingIndices
  single : ∃ index, result.indexedAttestation.attestingIndices = [index]
  subnet : ∃ committeeCount,
    getCommitteeCountPerSlot state args.attestation.data.target.epoch = .ok committeeCount ∧
      result.subnet = Spec.computeSubnetForAttestation committeeCount args.attestation.data.slot
        args.attestation.data.index ∧
      ∀ subnet, args.subnet = some subnet → subnet = result.subnet

structure AggregateAccepted (state : CachedBeaconStateAllForks β) (args : AggregateCall)
    (result : AggregateValidationResult) : Prop where
  data : result.indexedAttestation.data = args.signedAggregateAndProof.message.aggregate.data
  established : Established state args.signedAggregateAndProof.message.aggregate
    result.indexedAttestation.attestingIndices
  nonempty : result.indexedAttestation.attestingIndices ≠ []
  aggregator : getBeaconCommittee state args.signedAggregateAndProof.message.aggregate.data.slot
      args.signedAggregateAndProof.message.aggregate.data.index = .ok result.committeeIndices ∧
    args.signedAggregateAndProof.message.aggregatorIndex ∈ result.committeeIndices

/-- An aggregate has as many bits as its committee in the state has members. -/
def BitsFitCommittee (state : CachedBeaconStateAllForks β) (aggregate : Attestation) : Prop :=
  ∃ committee, getBeaconCommittee state aggregate.data.slot aggregate.data.index = .ok committee ∧
    aggregate.aggregationBits.length = committee.length

/-! ## Bits -/

omit [Preset] in
theorem map_fst_zip_sublist (committee : List Nat) (bits : List Bool) :
    ((committee.zip bits).map (·.1)).Sublist committee := by
  induction committee generalizing bits with
  | nil => simp
  | cons index committee ih =>
    cases bits with
    | nil => simp
    | cons bit bits => exact (ih bits).cons_cons index

omit [Preset] in
theorem attestingMembers_zipIndexesCommitteeBits (committee : List Nat) (bits : List Bool) :
    AttestingMembers committee bits (zipIndexesCommitteeBits committee bits) := by
  unfold zipIndexesCommitteeBits
  refine ⟨?_, fun index => ?_⟩
  · exact (List.filter_sublist.map _).trans (map_fst_zip_sublist committee bits)
  · constructor
    · intro hmem
      obtain ⟨⟨v, bit⟩, hpair, rfl⟩ := List.mem_map.1 hmem
      obtain ⟨hpair, hbit⟩ := List.mem_filter.1 hpair
      obtain ⟨i, hi⟩ := List.mem_iff_getElem?.1 hpair
      obtain ⟨hv, hb⟩ := List.getElem?_zip_eq_some.1 hi
      exact ⟨i, by simpa [hb] using hbit, hv⟩
    · rintro ⟨i, hbit, hindex⟩
      refine List.mem_map.2 ⟨(index, true), List.mem_filter.2 ⟨?_, rfl⟩, rfl⟩
      exact List.mem_iff_getElem?.2 ⟨i, List.getElem?_zip_eq_some.2 ⟨hindex, hbit⟩⟩

omit [Preset] in
theorem singleBitLoop_some {bits : List Bool} {n k i : Nat}
    (h : singleBitLoop (bits.zipIdx n) (some k) = some i) :
    i = k ∧ ∀ j : Nat, bits[j]? ≠ some true := by
  induction bits generalizing n with
  | nil => exact ⟨(Option.some.inj h).symm, fun j hj => by cases hj⟩
  | cons bit bits ih =>
    rw [List.zipIdx_cons] at h
    cases bit with
    | true => cases h
    | false =>
      obtain ⟨heq, hnone⟩ := ih h
      refine ⟨heq, fun j => ?_⟩
      cases j with
      | zero => simp
      | succ j => simpa using hnone j

omit [Preset] in
theorem singleBitLoop_none {bits : List Bool} {n i : Nat}
    (h : singleBitLoop (bits.zipIdx n) none = some i) :
    n ≤ i ∧ ∀ j : Nat, bits[j]? = some true ↔ n + j = i := by
  induction bits generalizing n with
  | nil => cases h
  | cons bit bits ih =>
    rw [List.zipIdx_cons] at h
    cases bit with
    | true =>
      obtain ⟨rfl, hnone⟩ := singleBitLoop_some h
      refine ⟨le_refl _, fun j => ?_⟩
      cases j with
      | zero => simp
      | succ j =>
        simp only [List.getElem?_cons_succ]
        exact ⟨fun hset => (hnone j hset).elim, fun heq => by omega⟩
    | false =>
      obtain ⟨hle, hrest⟩ := ih h
      refine ⟨by omega, fun j => ?_⟩
      cases j with
      | zero =>
        simp only [List.getElem?_cons_zero, Option.some.injEq, Bool.false_eq_true, false_iff]
        omega
      | succ j =>
        simp only [List.getElem?_cons_succ]
        rw [hrest j]
        omega

omit [Preset] in
theorem getSingleBitIndex_eq_some {bits : List Bool} {bitIndex : Nat}
    (h : getSingleBitIndex bits = some bitIndex) (i : Nat) :
    bits[i]? = some true ↔ i = bitIndex := by
  rw [(singleBitLoop_none h).2 i, Nat.zero_add]

/-! ## The checks -/

variable {chain : GossipChain} {state : CachedBeaconStateAllForks β} {attestation : Attestation}
  {headBlock : IProtoBlock}

theorem verifyHeadBlockAndTargetRoot_eq_ok {beaconBlockRoot targetRoot : Root}
    {attestationEpoch : Nat}
    (h : verifyHeadBlockAndTargetRoot chain beaconBlockRoot targetRoot attestationEpoch =
      .ok headBlock) : chain.getBlock beaconBlockRoot = some headBlock := by
  unfold verifyHeadBlockAndTargetRoot at h
  obtain ⟨block, hknown, h⟩ := eq_ok_of_bind h
  obtain ⟨_, -, h⟩ := eq_ok_of_bind h
  obtain rfl := Except.ok.inj h
  unfold verifyHeadBlockIsKnown at hknown
  cases hblock : chain.getBlock beaconBlockRoot with
  | none =>
    rw [hblock] at hknown
    cases hknown
  | some block' =>
    rw [hblock] at hknown
    exact congrArg some (Except.ok.inj hknown)

theorem attestationHeadState_eq_ok {answer : Except String (CachedBeaconStateAllForks β)}
    (h : attestationHeadState answer = .ok state) : answer = .ok state := by
  cases answer with
  | error e => cases h
  | ok state' => exact congrArg Except.ok (Except.ok.inj h)

theorem verifyEarlyChecks_eq_ok {bitIndex : Nat}
    (h : verifyEarlyChecks chain attestation = .ok (bitIndex, headBlock)) :
    attestation.data.target.epoch = computeEpochAtSlot attestation.data.slot ∧
      getSingleBitIndex attestation.aggregationBits = some bitIndex ∧
      chain.getBlock attestation.data.beaconBlockRoot = some headBlock := by
  unfold verifyEarlyChecks at h
  dsimp only at h
  split_ifs at h with hepoch
  · cases h
  obtain ⟨_, -, h⟩ := eq_ok_of_bind h
  cases hsingle : getSingleBitIndex attestation.aggregationBits with
  | none =>
    rw [hsingle] at h
    cases h
  | some i =>
    rw [hsingle] at h
    obtain ⟨_, hbit, h⟩ := eq_ok_of_bind h
    obtain ⟨headBlock', hhead, h⟩ := eq_ok_of_bind h
    cases hbit
    cases h
    exact ⟨not_not.1 hepoch, rfl, verifyHeadBlockAndTargetRoot_eq_ok hhead⟩

theorem getCommitteeIndices_eq_ok {slot index : Nat} {committee : List Nat}
    (hstate : ShufflingsOk state) (h : getCommitteeIndices state slot index = .ok committee) :
    ∃ shuffled, getShufflingAtEpoch state (computeEpochAtSlot slot) = .ok shuffled ∧
      (shuffled.committees.getD (slot % SLOTS_PER_EPOCH) [])[index]? = some committee ∧
      index < shuffled.committeesPerSlot := by
  unfold getCommitteeIndices at h
  obtain ⟨shuffled, hshuffled, h⟩ := eq_ok_of_bind h
  have hshuffled : getShufflingAtEpoch state (computeEpochAtSlot slot) = .ok shuffled := by
    cases hget : getShufflingAtEpoch state (computeEpochAtSlot slot) with
    | error e =>
      rw [hget] at hshuffled
      cases hshuffled
    | ok shuffled' =>
      rw [hget] at hshuffled
      exact congrArg Except.ok (Except.ok.inj hshuffled)
  dsimp only at h
  refine ⟨shuffled, hshuffled, ?_, ?_⟩
  · cases hget : (shuffled.committees.getD (slot % SLOTS_PER_EPOCH) [])[index]? with
    | none =>
      rw [hget] at h
      cases h
    | some committee' =>
      rw [hget] at h
      exact congrArg some (Except.ok.inj h)
  · rw [← hstate.length_committees hshuffled slot]
    cases hget : (shuffled.committees.getD (slot % SLOTS_PER_EPOCH) [])[index]? with
    | none =>
      rw [hget] at h
      cases h
    | some committee' => exact (List.getElem?_eq_some_iff.1 hget).1

theorem getBeaconCommittee_eq {slot index : Nat} {committee : List Nat}
    {shuffled : ShuffledCommittees}
    (hshuffled : getShufflingAtEpoch state (computeEpochAtSlot slot) = .ok shuffled)
    (hcommittee : (shuffled.committees.getD (slot % SLOTS_PER_EPOCH) [])[index]? = some committee) :
    getBeaconCommittee state slot index = .ok committee := by
  unfold getBeaconCommittee
  rw [hshuffled]
  simp only [bind, Except.bind, hcommittee, pure, Except.pure]

theorem getCommitteeCountPerSlot_eq {epoch : Nat} {shuffled : ShuffledCommittees}
    (hshuffled : getShufflingAtEpoch state epoch = .ok shuffled) :
    getCommitteeCountPerSlot state epoch = .ok shuffled.committeesPerSlot := by
  unfold getCommitteeCountPerSlot
  rw [hshuffled]
  rfl

theorem validateAttestation_eq_ok {committeeCount : Nat} {committee : List Nat}
    (hcount : getCommitteeCountPerSlot state (computeEpochAtSlot attestation.data.slot) =
      .ok committeeCount)
    (hindex : attestation.data.index < committeeCount)
    (htarget : attestation.data.target.epoch = state.epochCtx.previousShuffling.epoch ∨
      attestation.data.target.epoch = state.epochCtx.currentShuffling.epoch)
    (hepoch : attestation.data.target.epoch = computeEpochAtSlot attestation.data.slot)
    (hslot : attestation.data.slot + MIN_ATTESTATION_INCLUSION_DELAY ≤ state.slot ∧
      state.slot ≤ attestation.data.slot + SLOTS_PER_EPOCH)
    (hcommittee : getBeaconCommittee state attestation.data.slot attestation.data.index =
      .ok committee)
    (hlength : attestation.aggregationBits.length = committee.length) :
    validateAttestation state attestation = .ok () := by
  unfold validateAttestation
  dsimp only
  rw [hcount, hcommittee]
  dsimp only [bind, Except.bind]
  rw [if_neg (not_not.2 hindex), if_neg (not_not.2 htarget), if_neg (not_not.2 hepoch),
    if_neg (not_not.2 hslot), if_neg (not_not.2 hlength)]
  rfl

/-- A block in the slots of the attestation finds the committee of the attested state. -/
theorem includable_of_length {committee : List Nat} (hstate : ShufflingsOk state)
    (hepoch : attestation.data.target.epoch = computeEpochAtSlot attestation.data.slot)
    (hcommittee : getCommitteeIndices state attestation.data.slot attestation.data.index =
      .ok committee)
    (hlength : attestation.aggregationBits.length = committee.length) :
    Includable state attestation := by
  intro state' hdescends hfrom hto
  obtain ⟨shuffled, hshuffled, hget, hindex⟩ := getCommitteeIndices_eq_ok hstate hcommittee
  obtain ⟨hstate', -⟩ := hdescends.shufflingsOk hstate
  -- the slots leave two epochs
  have hle : computeEpochAtSlot attestation.data.slot ≤ computeEpochAtSlot state'.slot :=
    Nat.div_le_div_right (by omega)
  have hge : computeEpochAtSlot state'.slot ≤ computeEpochAtSlot attestation.data.slot + 1 := by
    unfold computeEpochAtSlot
    rw [← Nat.add_div_right _ Preset.SLOTS_PER_EPOCH_pos]
    exact Nat.div_le_div_right hto
  have hfound := hdescends.getShufflingAtEpoch_eq hstate hshuffled hge
  have htarget : attestation.data.target.epoch = state'.epochCtx.previousShuffling.epoch ∨
      attestation.data.target.epoch = state'.epochCtx.currentShuffling.epoch := by
    rw [hstate'.previous, hstate'.current, hepoch]
    omega
  exact validateAttestation_eq_ok (getCommitteeCountPerSlot_eq hfound) hindex htarget hepoch
    ⟨hfrom, hto⟩ (getBeaconCommittee_eq hfound hget) hlength

theorem Established.length_eq {committee attestingIndices : List Nat} (hstate : ShufflingsOk state)
    (hcommittee : getCommitteeIndices state attestation.data.slot attestation.data.index =
      .ok committee) (h : Established state attestation attestingIndices) :
    attestation.aggregationBits.length = committee.length := by
  obtain ⟨shuffled, hshuffled, hget, -⟩ := getCommitteeIndices_eq_ok hstate hcommittee
  obtain ⟨committee', hcommittee', hlength, -⟩ := h.committee
  rw [getBeaconCommittee_eq hshuffled hget] at hcommittee'
  obtain rfl := Except.ok.inj hcommittee'
  exact hlength

theorem established_of_length {committee attestingIndices : List Nat}
    (hstate : ShufflingsOk state)
    (hepoch : attestation.data.target.epoch = computeEpochAtSlot attestation.data.slot)
    (hcommittee : getCommitteeIndices state attestation.data.slot attestation.data.index =
      .ok committee)
    (hmembers : AttestingMembers committee attestation.aggregationBits attestingIndices)
    (hlength : attestation.aggregationBits.length = committee.length) :
    Established state attestation attestingIndices := by
  obtain ⟨shuffled, hshuffled, hget, hindex⟩ := getCommitteeIndices_eq_ok hstate hcommittee
  refine ⟨⟨shuffled.committeesPerSlot, ?_, hindex⟩, ⟨committee, ?_, hlength, hmembers⟩, ?_⟩
  · rw [hepoch]
    exact getCommitteeCountPerSlot_eq hshuffled
  · exact getBeaconCommittee_eq hshuffled hget
  · exact includable_of_length hstate hepoch hcommittee hlength

theorem verifyMiddleChecks_eq_ok {subnet : Option Nat} {bitIndex validatorIndex expectedSubnet : Nat}
    (h : verifyMiddleChecks state attestation subnet bitIndex =
      .ok (validatorIndex, expectedSubnet)) :
    ∃ committee, getCommitteeIndices state attestation.data.slot attestation.data.index =
        .ok committee ∧
      attestation.aggregationBits.length = committee.length ∧
      validatorIndex = committee.getD bitIndex 0 ∧
      computeSubnetForSlot state attestation.data.slot attestation.data.index =
        .ok expectedSubnet ∧
      ∀ s, subnet = some s → s = expectedSubnet := by
  unfold verifyMiddleChecks at h
  obtain ⟨committee, hcommittee, h⟩ := eq_ok_of_bind h
  dsimp only at h
  split_ifs at h with hlength
  · cases h
  obtain ⟨expected, hsubnet, h⟩ := eq_ok_of_bind h
  cases subnet with
  | none =>
    cases h
    exact ⟨committee, hcommittee, not_not.1 hlength, rfl, hsubnet, fun s hs => by cases hs⟩
  | some received =>
    dsimp only at h
    split_ifs at h with hreceived
    · cases h
    cases h
    refine ⟨committee, hcommittee, not_not.1 hlength, rfl, hsubnet, fun s hs => ?_⟩
    rw [← Option.some.inj hs]
    exact not_not.1 hreceived

theorem computeSubnetForSlot_eq_ok {slot index subnet : Nat}
    (h : computeSubnetForSlot state slot index = .ok subnet) :
    ∃ committeeCount, getCommitteeCountPerSlot state (computeEpochAtSlot slot) =
        .ok committeeCount ∧
      subnet = Spec.computeSubnetForAttestation committeeCount slot index := by
  unfold computeSubnetForSlot at h
  cases hcount : getCommitteeCountPerSlot state (computeEpochAtSlot slot) with
  | error e =>
    rw [hcount] at h
    cases h
  | ok committeeCount =>
    rw [hcount] at h
    cases h
    exact ⟨committeeCount, rfl, rfl⟩

theorem verifyAggregateCommittee_eq_ok {aggregateAndProof : AggregateAndProof}
    {committee attestingIndices : List Nat}
    (h : verifyAggregateCommittee chain state aggregateAndProof = .ok (committee, attestingIndices)) :
    getCommitteeIndices state aggregateAndProof.aggregate.data.slot
        aggregateAndProof.aggregate.data.index = .ok committee ∧
      attestingIndices =
        zipIndexesCommitteeBits committee aggregateAndProof.aggregate.aggregationBits ∧
      attestingIndices ≠ [] ∧ aggregateAndProof.aggregatorIndex ∈ committee := by
  unfold verifyAggregateCommittee at h
  obtain ⟨committee', hcommittee, h⟩ := eq_ok_of_bind h
  dsimp only at h
  by_cases hempty : (zipIndexesCommitteeBits committee'
      aggregateAndProof.aggregate.aggregationBits).length < 1
  · rw [if_pos hempty] at h
    cases h
  rw [if_neg hempty] at h
  by_cases hselected : ¬ isAggregatorFromCommitteeLength chain committee'.length
      aggregateAndProof.selectionProof
  · rw [if_pos hselected] at h
    cases h
  rw [if_neg hselected] at h
  by_cases haggregator : aggregateAndProof.aggregatorIndex ∉ committee'
  · rw [if_pos haggregator] at h
    cases h
  rw [if_neg haggregator] at h
  cases h
  refine ⟨hcommittee, rfl, fun hnil => hempty ?_, not_not.1 haggregator⟩
  rw [hnil]
  exact Nat.zero_lt_one

/-! ## Calls that return -/

/-- What a call of `validateGossipAttestation` knows when it returns. -/
def AttestationChecked (args : AttestationCall) (answers : Answers GossipQuery (GossipAnswer β))
    (_ : SeenAttesters) (result : Except GossipError AttestationValidationResult)
    (_ : SeenAttesters) : Prop :=
  ∀ r, result = .ok r → ∃ bitIndex headBlock state validatorIndex,
    verifyEarlyChecks args.chain args.attestation = .ok (bitIndex, headBlock) ∧
    ⟨.getState headBlock.stateRoot, .ok state⟩ ∈ answers ∧
    verifyMiddleChecks state args.attestation args.subnet bitIndex = .ok (validatorIndex, r.subnet) ∧
    r.indexedAttestation = ⟨[validatorIndex], args.attestation.data, args.attestation.signature⟩

theorem sat_attestation (args : AttestationCall) (seen : SeenAttesters) :
    (AttestationCall.validate β args seen).Sat (fun _ _ => True) (fun _ _ _ _ => True) (AttestationChecked args) []
      seen := by
  have hthrow : ∀ (answers : Answers GossipQuery (GossipAnswer β)) (s s' : SeenAttesters)
      (e : GossipError), AttestationChecked args answers s (.error e) s' := by
    intro answers s s' e r hr
    cases hr
  unfold AttestationCall.validate validateGossipAttestation
  rw [Async.sat_lift_bind]
  refine ⟨?_, fun e _ => hthrow _ _ _ e⟩
  rintro ⟨bitIndex, headBlock⟩ hearly
  rw [Async.sat_await_bind]
  refine ⟨trivial, fun answer seen _ => ?_⟩
  rw [Async.sat_lift_bind]
  refine ⟨fun state hstate => ?_, fun e _ => hthrow _ _ _ e⟩
  rw [Async.sat_lift_bind]
  refine ⟨?_, fun e _ => hthrow _ _ _ e⟩
  rintro ⟨validatorIndex, expectedSubnet⟩ hmiddle
  rw [Async.sat_read_bind]
  refine ⟨fun _ _ => ?_, fun e _ => hthrow _ _ _ e⟩
  rw [Async.sat_await_bind]
  refine ⟨trivial, fun answer' seen _ => ?_⟩
  rw [Async.sat_lift_bind]
  refine ⟨fun _ _ => ?_, fun e _ => hthrow _ _ _ e⟩
  rw [Async.sat_read_bind]
  refine ⟨fun _ _ => ?_, fun e _ => hthrow _ _ _ e⟩
  rw [Async.sat_sync_bind]
  refine ⟨fun _ seen' _ => ?_, fun e _ => hthrow _ _ _ e⟩
  intro r hr
  cases hr
  refine ⟨bitIndex, headBlock, state, validatorIndex, hearly, ?_, hmiddle, rfl⟩
  rw [attestationHeadState_eq_ok hstate]
  simp

/-- What a call of `validateGossipAggregateAndProof` knows when it returns. -/
def AggregateChecked (args : AggregateCall) (answers : Answers GossipQuery (GossipAnswer β))
    (_ : SeenAttesters) (result : Except GossipError AggregateValidationResult)
    (_ : SeenAttesters) : Prop :=
  let aggregate := args.signedAggregateAndProof.message.aggregate
  ∀ r, result = .ok r → ∃ headBlock state,
    verifyAggregateSlot args.chain aggregate = .ok () ∧
    args.chain.getBlock aggregate.data.beaconBlockRoot = some headBlock ∧
    ⟨.getState headBlock.stateRoot, .ok state⟩ ∈ answers ∧
    verifyAggregateCommittee args.chain state args.signedAggregateAndProof.message =
      .ok (r.committeeIndices, r.indexedAttestation.attestingIndices) ∧
    r.indexedAttestation.data = aggregate.data

theorem sat_aggregate (args : AggregateCall) (seen : SeenAttesters) :
    (AggregateCall.validate β args seen).Sat (fun _ _ => True) (fun _ _ _ _ => True) (AggregateChecked args) []
      seen := by
  have hthrow : ∀ (answers : Answers GossipQuery (GossipAnswer β)) (s s' : SeenAttesters)
      (e : GossipError), AggregateChecked args answers s (.error e) s' := by
    intro answers s s' e r hr
    cases hr
  unfold AggregateCall.validate validateGossipAggregateAndProof
  rw [Async.sat_lift_bind]
  refine ⟨fun _ hslot => ?_, fun e _ => hthrow _ _ _ e⟩
  rw [Async.sat_read_bind]
  refine ⟨fun _ _ => ?_, fun e _ => hthrow _ _ _ e⟩
  rw [Async.sat_lift_bind]
  refine ⟨fun headBlock hhead => ?_, fun e _ => hthrow _ _ _ e⟩
  rw [Async.sat_await_bind]
  refine ⟨trivial, fun answer seen _ => ?_⟩
  rw [Async.sat_lift_bind]
  refine ⟨fun state hstate => ?_, fun e _ => hthrow _ _ _ e⟩
  rw [Async.sat_lift_bind]
  refine ⟨?_, fun e _ => hthrow _ _ _ e⟩
  rintro ⟨committeeIndices, attestingIndices⟩ hcommittee
  rw [Async.sat_await_bind]
  refine ⟨trivial, fun answer' seen _ => ?_⟩
  rw [Async.sat_lift_bind]
  refine ⟨fun _ _ => ?_, fun e _ => hthrow _ _ _ e⟩
  rw [Async.sat_read_bind]
  refine ⟨fun _ _ => ?_, fun e _ => hthrow _ _ _ e⟩
  rw [Async.sat_sync_bind]
  refine ⟨fun _ seen' _ => ?_, fun e _ => hthrow _ _ _ e⟩
  intro r hr
  cases hr
  refine ⟨headBlock, state, hslot, verifyHeadBlockAndTargetRoot_eq_ok hhead, ?_, hcommittee, rfl⟩
  rw [attestationHeadState_eq_ok hstate]
  simp

theorem guarantees_of_sat {ι ρ : Type} {validate : ι → GossipTask β ρ}
    {P : ι → Answers GossipQuery (GossipAnswer β) → SeenAttesters → Except GossipError ρ →
      SeenAttesters → Prop}
    (h : ∀ args seen, (validate args seen).Sat (fun _ _ => True) (fun _ _ _ _ => True) (P args) []
      seen) :
    EventLoop.Guarantees validate (fun (currentEpoch : Nat) seen => seen.prune currentEpoch)
      (fun _ _ => True) (fun _ _ _ _ => True) P :=
  ⟨h, fun _ => trivial, fun _ _ _ _ _ => trivial, fun _ _ _ _ _ => trivial,
    fun _ _ _ _ _ _ => trivial, fun _ _ => trivial⟩

theorem verifyAggregateSlot_eq_ok (h : verifyAggregateSlot chain attestation = .ok ()) :
    attestation.data.target.epoch = computeEpochAtSlot attestation.data.slot := by
  unfold verifyAggregateSlot at h
  by_cases hepoch : attestation.data.target.epoch ≠ computeEpochAtSlot attestation.data.slot
  · rw [if_pos hepoch] at h
    cases h
  · exact not_not.1 hepoch

theorem AttestationChecked.accepted {args : AttestationCall}
    {answers : Answers GossipQuery (GossipAnswer β)} {s s' : SeenAttesters}
    {result : AttestationValidationResult} (h : AttestationChecked args answers s (.ok result) s') :
    ∃ state, AttestedState args.chain args.attestation.data answers state ∧
      (ShufflingsOk state → AttestationAccepted state args result) := by
  obtain ⟨bitIndex, headBlock, state, validatorIndex, hearly, hstate, hmiddle, hindexed⟩ := h result rfl
  obtain ⟨hepoch, hsingle, hblock⟩ := verifyEarlyChecks_eq_ok hearly
  obtain ⟨committee, hcommittee, hlength, rfl, hsubnet, hreceived⟩ := verifyMiddleChecks_eq_ok hmiddle
  obtain ⟨committeeCount, hcount, hexpected⟩ := computeSubnetForSlot_eq_ok hsubnet
  refine ⟨state, ⟨headBlock, hblock, hstate⟩, fun hok => ?_⟩
  -- the bit is that of a member
  have hbit := (getSingleBitIndex_eq_some hsingle bitIndex).2 rfl
  have hlt : bitIndex < committee.length := by
    rw [← hlength]
    exact (List.getElem?_eq_some_iff.1 hbit).1
  have hget : committee[bitIndex]? = some (committee.getD bitIndex 0) := by
    rw [List.getD_eq_getElem?_getD, List.getElem?_eq_getElem hlt]
    rfl
  have hmembers : AttestingMembers committee args.attestation.aggregationBits
      [committee.getD bitIndex 0] := by
    refine ⟨List.singleton_sublist.2 (List.mem_of_getElem? hget), fun index => ?_⟩
    rw [List.mem_singleton]
    constructor
    · rintro rfl
      exact ⟨bitIndex, hbit, hget⟩
    · rintro ⟨i, hset, hindex⟩
      rw [(getSingleBitIndex_eq_some hsingle i).1 hset, hget] at hindex
      exact (Option.some.inj hindex).symm
  refine ⟨?_, ?_, ⟨committee.getD bitIndex 0, ?_⟩, committeeCount, ?_, hexpected, hreceived⟩
  · rw [hindexed]
  · rw [hindexed]
    exact established_of_length hok hepoch hcommittee hmembers hlength
  · rw [hindexed]
  · rw [hepoch]
    exact hcount

theorem AggregateChecked.accepted_iff {args : AggregateCall}
    {answers : Answers GossipQuery (GossipAnswer β)} {s s' : SeenAttesters}
    {result : AggregateValidationResult} (h : AggregateChecked args answers s (.ok result) s') :
    ∃ state, AttestedState args.chain args.signedAggregateAndProof.message.aggregate.data answers
        state ∧
      (ShufflingsOk state → (AggregateAccepted state args result ↔
        BitsFitCommittee state args.signedAggregateAndProof.message.aggregate)) := by
  obtain ⟨headBlock, state, hslot, hblock, hstate, hchecked, hdata⟩ := h result rfl
  obtain ⟨hcommittee, hattesting, hnonempty, haggregator⟩ := verifyAggregateCommittee_eq_ok hchecked
  refine ⟨state, ⟨headBlock, hblock, hstate⟩, fun hok => ?_⟩
  obtain ⟨shuffled, hshuffled, hget, -⟩ := getCommitteeIndices_eq_ok hok hcommittee
  have hbeacon := getBeaconCommittee_eq hshuffled hget
  constructor
  · intro haccepted
    exact ⟨_, hbeacon, haccepted.established.length_eq hok hcommittee⟩
  · rintro ⟨committee, hcommittee', hlength⟩
    rw [hbeacon] at hcommittee'
    obtain rfl := Except.ok.inj hcommittee'
    refine ⟨hdata, ?_, hnonempty, hbeacon, haggregator⟩
    rw [hattesting]
    exact established_of_length hok (verifyAggregateSlot_eq_ok hslot) hcommittee
      (attestingMembers_zipIndexesCommitteeBits _ _) hlength

/-- A call that returns has established what pools and blocks assume, an aggregate just when its
bits fit its committee. -/
theorem gossip_establishes (β : Type) :
    (∀ labels loop, GossipRun (AttestationCall.validate β) labels loop → ∀ call ∈ loop.calls,
      ∀ result, call.turn.result? = some (.ok result) →
        ∃ state, AttestedState call.args.chain call.args.attestation.data call.answers state ∧
          (ShufflingsOk state → AttestationAccepted state call.args result)) ∧
    (∀ labels loop, GossipRun (AggregateCall.validate β) labels loop → ∀ call ∈ loop.calls,
      ∀ result, call.turn.result? = some (.ok result) →
        ∃ state, AttestedState call.args.chain
            call.args.signedAggregateAndProof.message.aggregate.data call.answers state ∧
          (ShufflingsOk state → (AggregateAccepted state call.args result ↔
            BitsFitCommittee state call.args.signedAggregateAndProof.message.aggregate))) := by
  refine ⟨fun labels loop hrun call hcall result hresult => ?_,
    fun labels loop hrun call hcall result hresult => ?_⟩
  · obtain ⟨s, s', hchecked⟩ := hrun.result_sat (guarantees_of_sat sat_attestation) hcall hresult
    exact hchecked.accepted
  · obtain ⟨s, s', hchecked⟩ := hrun.result_sat (guarantees_of_sat sat_aggregate) hcall hresult
    exact hchecked.accepted_iff

end

/-! ## A bit too many -/

attribute [local instance] minimal

theorem gossipState_shufflingsOk : ShufflingsOk gossipState where
  current := rfl
  previous := rfl
  next := rfl
  genesis := fun h => absurd h (by decide)
  computed := by
    intro shuffled hmem
    have hall : shuffled = computeEpochShuffling (List.range 24) := by
      simpa [gossipState] using hmem
    exact ⟨_, hall⟩

theorem getCommitteeIndices_gossipState : getCommitteeIndices gossipState 25 0 = .ok [3, 4, 5] := rfl

/-- The state of a block of the next slot. -/
def nextGossipState : CachedBeaconStateAllForks (List Nat) := { gossipState with slot := 26 }

/-- An aggregate that is validated without interruption. -/
def aggregateLabels (aggregationBits : List Bool) (attestingIndices : List Nat) :
    List (GossipLabel AggregateCall (List Nat)) :=
  let signed := (aggregateVote aggregationBits).signedAggregateAndProof
  [.call (aggregateVote aggregationBits), .answer 0 ⟨.getState 0x50, .ok gossipState⟩,
    .answer 0 ⟨.verifySignatureSets [.selectionProof 25 3 0, .aggregateAndProof 3 3 signed,
      .indexedAttestation ⟨attestingIndices, signed.message.aggregate.data, 0⟩], .ok true⟩]

/-- A fourth bit for a committee of three is let through, and a block with it is invalid. -/
theorem aggregate_fourBits_not_accepted : ∃ loop call result,
    GossipRun (AggregateCall.validate (List Nat))
      (aggregateLabels [true, false, true, true] [3, 5]) loop ∧
    call ∈ loop.calls ∧ call.turn.result? = some (.ok result) ∧
    AttestedState call.args.chain call.args.signedAggregateAndProof.message.aggregate.data
      call.answers gossipState ∧
    ShufflingsOk gossipState ∧ ¬ AggregateAccepted gossipState call.args result ∧
    Descends gossipState nextGossipState ∧
    (validateAttestation nextGossipState
      call.args.signedAggregateAndProof.message.aggregate).isOk = false := by
  refine ⟨_, _, _, .step (.step (.step .start trivial (.call _ _)) trivial (.answer rfl _))
    trivial (.answer rfl _), List.Mem.head _, rfl, ⟨gossipBlock, rfl, List.Mem.head _⟩,
    gossipState_shufflingsOk, fun h => ?_, ?_, ?_⟩
  · have hlength := h.established.length_eq gossipState_shufflingsOk getCommitteeIndices_gossipState
    exact absurd hlength (by decide)
  · exact Relation.ReflTransGen.single (.slot rfl rfl rfl rfl rfl rfl rfl)
  · rfl

/-- The bits of 3 and of 5. -/
theorem gossip_establishes_threeBits : ∃ loop call result,
    GossipRun (AggregateCall.validate (List Nat)) (aggregateLabels [true, false, true] [3, 5]) loop ∧
    call ∈ loop.calls ∧ call.turn.result? = some (.ok result) ∧
    result.indexedAttestation.attestingIndices = [3, 5] ∧
    ∃ state, AttestedState call.args.chain
        call.args.signedAggregateAndProof.message.aggregate.data call.answers state ∧
      (ShufflingsOk state → (AggregateAccepted state call.args result ↔
        BitsFitCommittee state call.args.signedAggregateAndProof.message.aggregate)) := by
  have hrun : ∃ loop call result, GossipRun (AggregateCall.validate (List Nat))
        (aggregateLabels [true, false, true] [3, 5]) loop ∧
      call ∈ loop.calls ∧ call.turn.result? = some (.ok result) ∧
      result.indexedAttestation.attestingIndices = [3, 5] :=
    ⟨_, _, _, .step (.step (.step .start trivial (.call _ _)) trivial (.answer rfl _))
      trivial (.answer rfl _), List.Mem.head _, rfl, rfl⟩
  obtain ⟨loop, call, result, hrun, hcall, hresult, hattesting⟩ := hrun
  exact ⟨loop, call, result, hrun, hcall, hresult, hattesting,
    (gossip_establishes (List Nat)).2 _ loop hrun call hcall result hresult⟩

end Lodestar.Chain

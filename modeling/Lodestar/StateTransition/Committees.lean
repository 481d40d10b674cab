import Lodestar.Base.OrderedMap
import Lodestar.Base.Slices
import Lodestar.StateTransition.EpochShuffling
import Lodestar.StateTransition.Operations
import Lodestar.StateTransition.Shuffle

/-!
# Committees and duties

`computeEpochShuffling` of `util/epochShuffling.ts` from the state, and
`getCommitteeAssignments` of `cache/epochContext.ts`. The committees cut the
shuffled list into even slices, so every active validator has one place.
-/

namespace Lodestar.StateTransition

open Lodestar.Base

section

variable [Preset] {β : Type}

/-! ## The shuffling of an epoch -/

/-- `computeEpochShuffling`, with its seed. -/
def computeCommittees (hash : Bytes → Bytes32) (state : CachedBeaconStateAllForks β)
    (activeIndices : List Nat) (epoch : Nat) : Except String ShuffledCommittees := do
  let seed := getSeed hash state epoch DOMAIN_BEACON_ATTESTER
  let shuffling ← unshuffleList hash activeIndices seed
  return computeEpochShuffling shuffling

/-- `AttesterDuty` of `cache/epochContext.ts`. -/
structure CommitteeDuty where
  validatorIndex : Nat
  committeeIndex : Nat
  committeeLength : Nat
  committeesAtSlot : Nat
  validatorCommitteeIndex : Nat
  slot : Nat
  deriving DecidableEq

def getCommitteeAssignments (state : CachedBeaconStateAllForks β) (epoch : Nat)
    (requestedValidatorIndices : List Nat) : Except String (OrderedMap Nat CommitteeDuty) := do
  let shuffling ← getShufflingAtEpoch state epoch
  let epochCommittees := shuffling.committees
  return (List.range SLOTS_PER_EPOCH).foldl (fun duties epochSlot =>
    let slotCommittees := epochCommittees.getD epochSlot []
    (List.range slotCommittees.length).foldl (fun duties i =>
      let committee := slotCommittees.getD i []
      (List.range committee.length).foldl (fun duties j =>
        let validatorIndex := committee.getD j 0
        if requestedValidatorIndices.contains validatorIndex then
          duties.set validatorIndex
            { validatorIndex
              committeeLength := committee.length
              committeesAtSlot := slotCommittees.length
              validatorCommitteeIndex := j
              committeeIndex := i
              slot := epoch * SLOTS_PER_EPOCH + epochSlot }
        else duties) duties) duties) .empty

/-! ## What is asked of committees -/

/-- `compute_committee` of the specification. -/
def specCommittee (hash : Bytes → Bytes32) (indices : List Nat) (seed : Bytes32) (index count : Nat) :
    List Nat :=
  let first := indices.length * index / count
  let last := indices.length * (index + 1) / count
  (List.range' first (last - first)).map fun i =>
    indices.getD (shuffledIndex hash seed indices.length i) 0

/-- The committees share the active validators out evenly. -/
structure Partitions (shuffled : ShuffledCommittees) (activeIndices : List Nat) : Prop where
  perm : shuffled.committees.flatten.flatten.Perm activeIndices
  even : ∀ committee ∈ shuffled.committees.flatten, ∀ other ∈ shuffled.committees.flatten,
    committee.length ≤ other.length + 1
  count : shuffled.committees.flatten.length = SLOTS_PER_EPOCH * shuffled.committeesPerSlot
  slots : shuffled.committees.length = SLOTS_PER_EPOCH
  committeesPerSlot : ∀ slotCommittees ∈ shuffled.committees,
    slotCommittees.length = computeCommitteeCount activeIndices.length ∧
      slotCommittees.length = shuffled.committeesPerSlot

/-- Each committee is that of the specification. -/
def AgreesWithSpec (hash : Bytes → Bytes32) (shuffled : ShuffledCommittees) (activeIndices : List Nat)
    (seed : Bytes32) : Prop :=
  ∀ slot < SLOTS_PER_EPOCH, ∀ committeeIndex < shuffled.committeesPerSlot,
    shuffled.committees[slot]?.bind (·[committeeIndex]?) =
      some (specCommittee hash activeIndices seed
        (slot * shuffled.committeesPerSlot + committeeIndex)
        (shuffled.committeesPerSlot * SLOTS_PER_EPOCH))

/-- The duty tells where the committees contain its validator. -/
def IsDuty (shuffled : ShuffledCommittees) (epoch : Nat) (duty : CommitteeDuty) : Prop :=
  ∃ epochSlot slotCommittees committee, duty.slot = epoch * SLOTS_PER_EPOCH + epochSlot ∧
    shuffled.committees[epochSlot]? = some slotCommittees ∧
    duty.committeesAtSlot = slotCommittees.length ∧
    slotCommittees[duty.committeeIndex]? = some committee ∧
    duty.committeeLength = committee.length ∧
    committee[duty.validatorCommitteeIndex]? = some duty.validatorIndex

/-! ## Even slices -/

variable {shuffling activeIndices : List Nat}

theorem committees_computeEpochShuffling (shuffling : List Nat) :
    (computeEpochShuffling shuffling).committees = (List.range SLOTS_PER_EPOCH).map fun slot =>
      (List.range (computeEpochShuffling shuffling).committeesPerSlot).map fun committeeIndex =>
        let index := slot * (computeEpochShuffling shuffling).committeesPerSlot + committeeIndex
        let count := (computeEpochShuffling shuffling).committeesPerSlot * SLOTS_PER_EPOCH
        slice shuffling (shuffling.length * index / count) (shuffling.length * (index + 1) / count) :=
  rfl

theorem computeCommitteeCount_pos (activeValidatorCount : Nat) :
    0 < computeCommitteeCount activeValidatorCount := by
  unfold computeCommitteeCount
  exact Nat.lt_of_lt_of_le Nat.one_pos (le_max_left _ _)

theorem flatten_committees (shuffling : List Nat) :
    (computeEpochShuffling shuffling).committees.flatten =
      (List.range ((computeEpochShuffling shuffling).committeesPerSlot * SLOTS_PER_EPOCH)).map
        fun index => slice shuffling
          (shuffling.length * index /
            ((computeEpochShuffling shuffling).committeesPerSlot * SLOTS_PER_EPOCH))
          (shuffling.length * (index + 1) /
            ((computeEpochShuffling shuffling).committeesPerSlot * SLOTS_PER_EPOCH)) := by
  rw [committees_computeEpochShuffling]
  have hrows := flatten_rows SLOTS_PER_EPOCH (computeEpochShuffling shuffling).committeesPerSlot
    fun index => slice shuffling
      (shuffling.length * index /
        ((computeEpochShuffling shuffling).committeesPerSlot * SLOTS_PER_EPOCH))
      (shuffling.length * (index + 1) /
        ((computeEpochShuffling shuffling).committeesPerSlot * SLOTS_PER_EPOCH))
  rwa [mul_comm SLOTS_PER_EPOCH] at hrows

theorem partitions_computeEpochShuffling (hperm : shuffling.Perm activeIndices) :
    Partitions (computeEpochShuffling shuffling) activeIndices := by
  have hcount : 0 < (computeEpochShuffling shuffling).committeesPerSlot * SLOTS_PER_EPOCH :=
    Nat.mul_pos (computeCommitteeCount_pos _) Preset.SLOTS_PER_EPOCH_pos
  constructor
  · rw [flatten_committees, flatten_evenSlices _ hcount]
    exact hperm
  · intro committee hmem other hother
    rw [flatten_committees] at hmem hother
    obtain ⟨k, hk, rfl⟩ := List.mem_map.1 hmem
    obtain ⟨k', hk', rfl⟩ := List.mem_map.1 hother
    have hlength := (length_evenSlice shuffling (List.mem_range.1 hk)).2
    have hlength' := (length_evenSlice shuffling (List.mem_range.1 hk')).1
    omega
  · rw [flatten_committees, List.length_map, List.length_range, mul_comm]
  · rw [committees_computeEpochShuffling, List.length_map, List.length_range]
  · intro slotCommittees hmem
    rw [committees_computeEpochShuffling] at hmem
    obtain ⟨slot, -, rfl⟩ := List.mem_map.1 hmem
    rw [List.length_map, List.length_range, ← hperm.length_eq]
    exact ⟨rfl, rfl⟩

/-- The list that `compute_committee` cuts. -/
def specShuffling (hash : Bytes → Bytes32) (indices : List Nat) (seed : Bytes32) : List Nat :=
  (List.range indices.length).map fun i => indices.getD (shuffledIndex hash seed indices.length i) 0

theorem length_specShuffling (hash : Bytes → Bytes32) (indices : List Nat) (seed : Bytes32) :
    (specShuffling hash indices seed).length = indices.length := by
  simp [specShuffling]

theorem specCommittee_eq {hash : Bytes → Bytes32} {indices : List Nat} {seed : Bytes32}
    {index count : Nat} (h : index < count) :
    specCommittee hash indices seed index count =
      slice (specShuffling hash indices seed) (indices.length * index / count)
        (indices.length * (index + 1) / count) := by
  have hlast : indices.length * (index + 1) / count ≤ indices.length := evenBound_le_length h
  unfold specCommittee
  dsimp only
  refine List.ext_getElem? fun p => ?_
  rcases Nat.lt_or_ge p
    (indices.length * (index + 1) / count - indices.length * index / count) with hp | hp
  · rw [getElem?_slice hp, List.getElem?_map, List.getElem?_range' hp, one_mul]
    unfold specShuffling
    rw [List.getElem?_map, List.getElem?_range (by omega)]
  · rw [List.getElem?_eq_none, List.getElem?_eq_none]
    · rw [length_slice (by rw [length_specShuffling]; exact hlast)]
      exact hp
    · rw [List.length_map, List.length_range']
      exact hp

theorem getElem?_committees {slot committeeIndex : Nat} (hslot : slot < SLOTS_PER_EPOCH)
    (hcommittee : committeeIndex < (computeEpochShuffling shuffling).committeesPerSlot) :
    (computeEpochShuffling shuffling).committees[slot]?.bind (·[committeeIndex]?) =
      some (slice shuffling
        (shuffling.length * (slot * (computeEpochShuffling shuffling).committeesPerSlot +
          committeeIndex) / ((computeEpochShuffling shuffling).committeesPerSlot * SLOTS_PER_EPOCH))
        (shuffling.length * (slot * (computeEpochShuffling shuffling).committeesPerSlot +
          committeeIndex + 1) /
            ((computeEpochShuffling shuffling).committeesPerSlot * SLOTS_PER_EPOCH))) := by
  rw [committees_computeEpochShuffling, List.getElem?_map, List.getElem?_range hslot,
    Option.map_some, Option.bind_some, List.getElem?_map, List.getElem?_range hcommittee,
    Option.map_some]

theorem agreesWithSpec_iff {hash : Bytes → Bytes32} {seed : Bytes32}
    (hlength : shuffling.length = activeIndices.length) :
    AgreesWithSpec hash (computeEpochShuffling shuffling) activeIndices seed ↔
      shuffling = specShuffling hash activeIndices seed := by
  have hpos : 0 < (computeEpochShuffling shuffling).committeesPerSlot := computeCommitteeCount_pos _
  constructor
  · intro hagrees
    have hcount : 0 < (computeEpochShuffling shuffling).committeesPerSlot * SLOTS_PER_EPOCH :=
      Nat.mul_pos hpos Preset.SLOTS_PER_EPOCH_pos
    rw [← flatten_evenSlices shuffling hcount, ← flatten_evenSlices (specShuffling _ _ _) hcount]
    refine congrArg List.flatten (List.map_congr_left fun index hmem => ?_)
    have hindex := List.mem_range.1 hmem
    have hslot : index / (computeEpochShuffling shuffling).committeesPerSlot < SLOTS_PER_EPOCH :=
      Nat.div_lt_of_lt_mul hindex
    have hcommittee := Nat.mod_lt index hpos
    have hplace := hagrees _ hslot _ hcommittee
    rw [getElem?_committees hslot hcommittee, Nat.div_add_mod', specCommittee_eq hindex] at hplace
    rw [length_specShuffling]
    exact Option.some.inj hplace
  · intro heq slot hslot committeeIndex hcommittee
    have hindex : slot * (computeEpochShuffling shuffling).committeesPerSlot + committeeIndex <
        (computeEpochShuffling shuffling).committeesPerSlot * SLOTS_PER_EPOCH := by
      calc slot * (computeEpochShuffling shuffling).committeesPerSlot + committeeIndex
          < (slot + 1) * (computeEpochShuffling shuffling).committeesPerSlot := by
            rw [Nat.succ_mul]
            omega
        _ ≤ SLOTS_PER_EPOCH * (computeEpochShuffling shuffling).committeesPerSlot :=
            Nat.mul_le_mul_right _ hslot
        _ = _ := mul_comm _ _
    rw [getElem?_committees hslot hcommittee, specCommittee_eq hindex, ← heq, hlength]

/-! ## Duties -/

/-- The places of the committees in the order of `getCommitteeAssignments`. -/
def committeeDuties (shuffled : ShuffledCommittees) (epoch : Nat) : List CommitteeDuty :=
  (List.range SLOTS_PER_EPOCH).flatMap fun epochSlot =>
    let slotCommittees := shuffled.committees.getD epochSlot []
    (List.range slotCommittees.length).flatMap fun i =>
      let committee := slotCommittees.getD i []
      (List.range committee.length).map fun j =>
        { validatorIndex := committee.getD j 0
          committeeLength := committee.length
          committeesAtSlot := slotCommittees.length
          validatorCommitteeIndex := j
          committeeIndex := i
          slot := epoch * SLOTS_PER_EPOCH + epochSlot }

theorem getCommitteeAssignments_eq {state : CachedBeaconStateAllForks β} {epoch : Nat}
    {shuffled : ShuffledCommittees} (h : getShufflingAtEpoch state epoch = .ok shuffled)
    (requested : List Nat) :
    getCommitteeAssignments state epoch requested =
      .ok (((committeeDuties shuffled epoch).filter fun duty =>
        requested.contains duty.validatorIndex).foldl
          (fun duties duty => duties.set duty.validatorIndex duty) .empty) := by
  unfold getCommitteeAssignments committeeDuties
  rw [h, List.foldl_filter, List.foldl_flatMap]
  simp only [List.foldl_flatMap, List.foldl_map]
  rfl

variable {shuffled : ShuffledCommittees} {epoch : Nat}

theorem mem_committeeDuties_iff {duty : CommitteeDuty}
    (hslots : shuffled.committees.length = SLOTS_PER_EPOCH) :
    duty ∈ committeeDuties shuffled epoch ↔ IsDuty shuffled epoch duty := by
  unfold committeeDuties IsDuty
  simp only [List.mem_flatMap, List.mem_map, List.mem_range]
  constructor
  · rintro ⟨epochSlot, hslot, i, hi, j, hj, rfl⟩
    exact ⟨epochSlot, _, _, rfl, getElem?_eq_some_getD _ [] (hslots ▸ hslot), rfl,
      getElem?_eq_some_getD _ [] hi, rfl, getElem?_eq_some_getD _ 0 hj⟩
  · rintro ⟨epochSlot, slotCommittees, committee, hslot, hcommittees, hatSlot, hcommittee, hlength,
      hvalidator⟩
    have hgetSlot : shuffled.committees.getD epochSlot [] = slotCommittees := by
      rw [List.getD_eq_getElem?_getD, hcommittees, Option.getD_some]
    have hgetCommittee : slotCommittees.getD duty.committeeIndex [] = committee := by
      rw [List.getD_eq_getElem?_getD, hcommittee, Option.getD_some]
    have hgetValidator : committee.getD duty.validatorCommitteeIndex 0 = duty.validatorIndex := by
      rw [List.getD_eq_getElem?_getD, hvalidator, Option.getD_some]
    have hltSlot := (List.getElem?_eq_some_iff.1 hcommittees).1
    refine ⟨epochSlot, hslots ▸ hltSlot, duty.committeeIndex, ?_, duty.validatorCommitteeIndex, ?_, ?_⟩
    · rw [hgetSlot]
      exact (List.getElem?_eq_some_iff.1 hcommittee).1
    · rw [hgetSlot, hgetCommittee]
      exact (List.getElem?_eq_some_iff.1 hvalidator).1
    · rw [hgetSlot, hgetCommittee, hgetValidator, ← hslot, ← hatSlot, ← hlength]

variable (epoch) in
theorem map_validatorIndex_committeeDuties
    (hslots : shuffled.committees.length = SLOTS_PER_EPOCH) :
    (committeeDuties shuffled epoch).map (·.validatorIndex) = shuffled.committees.flatten.flatten := by
  unfold committeeDuties
  rw [List.map_flatMap, ← hslots]
  simp only [List.map_flatMap, List.map_map, Function.comp_def, map_range_getD]
  rw [flatMap_range_getD shuffled.committees [] fun slotCommittees =>
    (List.range slotCommittees.length).flatMap fun i => slotCommittees.getD i []]
  have hslot : ∀ slotCommittees : List (List Nat),
      (List.range slotCommittees.length).flatMap (fun i => slotCommittees.getD i []) =
        slotCommittees.flatten := by
    intro slotCommittees
    rw [flatMap_range_getD slotCommittees [] fun committee => committee, List.flatMap_id']
  simp only [hslot]
  rw [List.flatMap_def, List.flatten_flatten]

theorem getCommitteeAssignments_spec {state : CachedBeaconStateAllForks β}
    (h : getShufflingAtEpoch state epoch = .ok shuffled)
    (hslots : shuffled.committees.length = SLOTS_PER_EPOCH)
    (hnodup : shuffled.committees.flatten.flatten.Nodup) (requested : List Nat) :
    ∃ duties, getCommitteeAssignments state epoch requested = .ok duties ∧
      ∀ validatorIndex duty, duties.get validatorIndex = some duty ↔
        validatorIndex ∈ requested ∧ duty.validatorIndex = validatorIndex ∧
          IsDuty shuffled epoch duty := by
  refine ⟨_, getCommitteeAssignments_eq h requested, fun validatorIndex duty => ?_⟩
  have hpairwise : ((committeeDuties shuffled epoch).filter fun duty =>
      requested.contains duty.validatorIndex).Pairwise
        fun duty other => duty.validatorIndex ≠ other.validatorIndex := by
    refine List.Pairwise.filter _ (List.pairwise_map.1 ?_)
    rw [map_validatorIndex_committeeDuties epoch hslots]
    exact hnodup
  have hmem : ∀ {duty : CommitteeDuty}, duty ∈ (committeeDuties shuffled epoch).filter
      (fun duty => requested.contains duty.validatorIndex) ↔
        IsDuty shuffled epoch duty ∧ duty.validatorIndex ∈ requested := by
    intro duty
    rw [List.mem_filter, mem_committeeDuties_iff hslots, List.contains_iff_mem]
  constructor
  · intro hget
    by_cases hreported : ∃ other ∈ (committeeDuties shuffled epoch).filter fun duty =>
        requested.contains duty.validatorIndex, other.validatorIndex = validatorIndex
    · obtain ⟨other, hother, rfl⟩ := hreported
      rw [OrderedMap.get_foldl_set hother hpairwise] at hget
      obtain rfl := Option.some.inj hget
      exact ⟨(hmem.1 hother).2, rfl, (hmem.1 hother).1⟩
    · rw [OrderedMap.get_foldl_set_of_ne fun other hother heq => hreported ⟨other, hother, heq⟩,
        OrderedMap.get_empty] at hget
      cases hget
  · rintro ⟨hrequested, rfl, hduty⟩
    exact OrderedMap.get_foldl_set (hmem.2 ⟨hduty, hrequested⟩) hpairwise

theorem eq_specShuffling {hash : Bytes → Bytes32} {seed : Bytes32}
    (hlength : shuffling.length = activeIndices.length)
    (hshuffled : ∀ i < activeIndices.length,
      shuffling[i]? = activeIndices[shuffledIndex hash seed activeIndices.length i]?) :
    shuffling = specShuffling hash activeIndices seed := by
  refine List.ext_getElem? fun i => ?_
  rcases Nat.lt_or_ge i activeIndices.length with hi | hi
  · unfold specShuffling
    rw [hshuffled i hi, List.getElem?_map, List.getElem?_range hi,
      getElem?_eq_some_getD _ 0 (shuffledIndex_lt hi)]
    rfl
  · rw [List.getElem?_eq_none (by omega),
      List.getElem?_eq_none (by rw [length_specShuffling]; exact hi)]

/-- Committees and duties of distinct active validators, in number below the length of any array. -/
theorem computeCommittees_spec (hash : Bytes → Bytes32) (state : CachedBeaconStateAllForks β)
    (activeIndices : List Nat) (epoch : Nat) (hnodup : activeIndices.Nodup)
    (hlength : activeIndices.length < 2 ^ 32) :
    ∃ shuffled, computeCommittees hash state activeIndices epoch = .ok shuffled ∧
      Partitions shuffled activeIndices ∧
      (∀ (state' : CachedBeaconStateAllForks β) (requested : List Nat),
        getShufflingAtEpoch state' epoch = .ok shuffled →
        ∃ duties, getCommitteeAssignments state' epoch requested = .ok duties ∧
          (∀ validatorIndex duty, duties.get validatorIndex = some duty ↔
            validatorIndex ∈ requested ∧ duty.validatorIndex = validatorIndex ∧
              IsDuty shuffled epoch duty) ∧
          ∀ validatorIndex ∈ requested, validatorIndex ∈ activeIndices →
            ∃ duty, duties.get validatorIndex = some duty) ∧
      (activeIndices.length < 2 ^ 31 →
        RoundsFit hash (getSeed hash state epoch DOMAIN_BEACON_ATTESTER) activeIndices.length →
        AgreesWithSpec hash shuffled activeIndices
          (getSeed hash state epoch DOMAIN_BEACON_ATTESTER)) := by
  obtain ⟨shuffling, hshuffling, hperm⟩ : ∃ shuffling,
      unshuffleList hash activeIndices (getSeed hash state epoch DOMAIN_BEACON_ATTESTER) =
        .ok shuffling ∧ shuffling.Perm activeIndices := innerShuffleList_perm hlength false
  have hpartitions := partitions_computeEpochShuffling hperm
  refine ⟨computeEpochShuffling shuffling, ?_, hpartitions, fun state' requested hstate => ?_,
    fun hshort hfits => ?_⟩
  · unfold computeCommittees
    dsimp only
    rw [hshuffling]
    rfl
  · obtain ⟨duties, hduties, hspec⟩ := getCommitteeAssignments_spec hstate hpartitions.slots
      (hpartitions.perm.nodup_iff.2 hnodup) requested
    refine ⟨duties, hduties, hspec, fun validatorIndex hrequested hactive => ?_⟩
    have hmem := hpartitions.perm.mem_iff.2 hactive
    rw [← map_validatorIndex_committeeDuties epoch hpartitions.slots] at hmem
    obtain ⟨duty, hduty, heq⟩ := List.mem_map.1 hmem
    exact ⟨duty, (hspec validatorIndex duty).2
      ⟨hrequested, heq, (mem_committeeDuties_iff hpartitions.slots).1 hduty⟩⟩
  · refine (agreesWithSpec_iff hperm.length_eq).2 (eq_specShuffling hperm.length_eq fun i hi => ?_)
    obtain ⟨output, houtput, hreindexes⟩ := unshuffleList_reindexes hash
      (getSeed hash state epoch DOMAIN_BEACON_ATTESTER) activeIndices hshort
    obtain rfl := Except.ok.inj (houtput.symm.trans hshuffling)
    rw [hreindexes.getElem? i hi, shuffle_agrees hfits hi]

end

/-! ## Small and large sets -/

attribute [local instance] blockPreset

abbrev shuffledState : CachedBeaconStateAllForks (List Nat) := blockState.toCachedBeaconStateAllForks

theorem computeCommittees_spec_three :
    [4, 9, 5].Nodup ∧ [4, 9, 5].length < 2 ^ 31 ∧
      RoundsFit sha256 (getSeed sha256 shuffledState 3 DOMAIN_BEACON_ATTESTER) 3 ∧
      ∃ shuffled, computeCommittees sha256 shuffledState [4, 9, 5] 3 = .ok shuffled ∧
        Partitions shuffled [4, 9, 5] ∧
        AgreesWithSpec sha256 shuffled [4, 9, 5]
          (getSeed sha256 shuffledState 3 DOMAIN_BEACON_ATTESTER) := by
  have hfits : RoundsFit sha256 (getSeed sha256 shuffledState 3 DOMAIN_BEACON_ATTESTER) 3 :=
    roundsFit_of_lt (by decide)
  obtain ⟨shuffled, hcommittees, hpartitions, -, hagrees⟩ :=
    computeCommittees_spec sha256 shuffledState [4, 9, 5] 3 (by decide) (by decide)
  exact ⟨by decide, by decide, hfits, shuffled, hcommittees, hpartitions,
    hagrees (by decide) hfits⟩

theorem long_shuffling_zero :
    walk (2 ^ 31 - 1) (innerRounds sha256
      (getSeed sha256 shuffledState 0 DOMAIN_BEACON_ATTESTER) (2 ^ 31 - 1) true) 0 = 335078329 := by
  decide +kernel

theorem long_index_zero :
    shuffledIndex sha256 (getSeed sha256 shuffledState 0 DOMAIN_BEACON_ATTESTER) (2 ^ 31 - 1) 0 =
      843483538 := by
  decide +kernel

/-- The first committee begins with another validator. -/
theorem long_list_other_committee :
    ¬ ∀ activeIndices : List Nat, activeIndices.Nodup → activeIndices.length < 2 ^ 31 →
      ∃ shuffled, computeCommittees sha256 shuffledState activeIndices 0 = .ok shuffled ∧
        AgreesWithSpec sha256 shuffled activeIndices
          (getSeed sha256 shuffledState 0 DOMAIN_BEACON_ATTESTER) := by
  intro hagree
  have hlength : (List.range (2 ^ 31 - 1)).length = 2 ^ 31 - 1 := List.length_range
  obtain ⟨shuffled, hcommittees, hagree⟩ :=
    hagree (List.range (2 ^ 31 - 1)) List.nodup_range (by rw [hlength]; decide)
  obtain ⟨shuffling, hshuffling, hreindexes⟩ := unshuffleList_reindexes sha256
    (getSeed sha256 shuffledState 0 DOMAIN_BEACON_ATTESTER) (List.range (2 ^ 31 - 1))
    (by rw [hlength]; decide)
  unfold computeCommittees at hcommittees
  dsimp only at hcommittees
  rw [hshuffling] at hcommittees
  obtain rfl := Except.ok.inj hcommittees
  have hpos : 0 < (List.range (2 ^ 31 - 1)).length := by rw [hlength]; decide
  have hfirst := congrArg (·[0]?) ((agreesWithSpec_iff hreindexes.length_eq).1 hagree)
  rw [hreindexes.getElem? 0 hpos] at hfirst
  unfold specShuffling at hfirst
  rw [List.getElem?_map, hlength, long_shuffling_zero, List.getElem?_range (by decide),
    List.getElem?_range (by decide), Option.map_some, long_index_zero,
    List.getD_eq_getElem?_getD, List.getElem?_range (by decide)] at hfirst
  cases hfirst

end Lodestar.StateTransition

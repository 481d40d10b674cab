import Lodestar.StateTransition.ProcessAttestation

/-!
# Committees along a chain

`computeEpochShuffling` of `util/epochShuffling.ts`, with the shuffled indices
as a parameter, and what a state finds of the committees of an earlier state of
its chain (`Descends.getShufflingAtEpoch_eq`).
-/

namespace Lodestar.StateTransition

variable [Preset] {β : Type}

/-! ## Committees -/

def computeCommitteeCount (activeValidatorCount : Nat) : Nat :=
  let validatorsPerSlot := activeValidatorCount / SLOTS_PER_EPOCH
  let committeesPerSlot := validatorsPerSlot / TARGET_COMMITTEE_SIZE
  max 1 (min MAX_COMMITTEES_PER_SLOT committeesPerSlot)

/-- `shuffling` is what `unshuffleList` makes of the active indices. -/
def computeEpochShuffling (shuffling : List Nat) : ShuffledCommittees :=
  let activeValidatorCount := shuffling.length
  let committeesPerSlot := computeCommitteeCount activeValidatorCount
  let committeeCount := committeesPerSlot * SLOTS_PER_EPOCH
  { shuffling
    committees := (List.range SLOTS_PER_EPOCH).map fun slot =>
      (List.range committeesPerSlot).map fun committeeIndex =>
        let index := slot * committeesPerSlot + committeeIndex
        let startOffset := activeValidatorCount * index / committeeCount
        let endOffset := activeValidatorCount * (index + 1) / committeeCount
        (shuffling.drop startOffset).take (endOffset - startOffset)
    committeesPerSlot }

theorem length_committees_computeEpochShuffling (shuffling : List Nat) (slot : Nat) :
    ((computeEpochShuffling shuffling).committees.getD (slot % SLOTS_PER_EPOCH) []).length =
      (computeEpochShuffling shuffling).committeesPerSlot := by
  have hslot : slot % SLOTS_PER_EPOCH < SLOTS_PER_EPOCH := Nat.mod_lt _ Preset.SLOTS_PER_EPOCH_pos
  unfold computeEpochShuffling
  simp [List.getD_eq_getElem?_getD, hslot]

/-- The shufflings of a state are those of the epochs around its own. -/
structure ShufflingsOk (state : CachedBeaconStateAllForks β) : Prop where
  current : state.epochCtx.currentShuffling.epoch = computeEpochAtSlot state.slot
  previous : state.epochCtx.previousShuffling.epoch = computeEpochAtSlot state.slot - 1
  next : state.epochCtx.nextShuffling.epoch = computeEpochAtSlot state.slot + 1
  /-- At genesis the previous shuffling is the current one. -/
  genesis : computeEpochAtSlot state.slot = 0 →
    state.epochCache.previousCommittees = state.epochCache.currentCommittees
  computed : ∀ shuffled ∈ [state.epochCache.previousCommittees, state.epochCache.currentCommittees,
    state.epochCache.nextCommittees], ∃ shuffling, shuffled = computeEpochShuffling shuffling

theorem getShufflingAtEpoch_mem {state : CachedBeaconStateAllForks β} {epoch : Nat}
    {shuffled : ShuffledCommittees} (h : getShufflingAtEpoch state epoch = .ok shuffled) :
    shuffled ∈ [state.epochCache.previousCommittees, state.epochCache.currentCommittees,
      state.epochCache.nextCommittees] := by
  unfold getShufflingAtEpoch at h
  split_ifs at h
  all_goals
    obtain rfl := Except.ok.inj h
    simp

variable {state state' : CachedBeaconStateAllForks β} {epoch : Nat} {shuffled : ShuffledCommittees}

theorem ShufflingsOk.getShufflingAtEpoch_previous (h : ShufflingsOk state)
    (hepoch : epoch + 1 = computeEpochAtSlot state.slot) :
    getShufflingAtEpoch state epoch = .ok state.epochCache.previousCommittees := by
  unfold getShufflingAtEpoch
  rw [if_pos (by rw [h.previous]; omega)]

theorem ShufflingsOk.getShufflingAtEpoch_current (h : ShufflingsOk state) :
    getShufflingAtEpoch state (computeEpochAtSlot state.slot) =
      .ok state.epochCache.currentCommittees := by
  unfold getShufflingAtEpoch
  by_cases hgenesis : computeEpochAtSlot state.slot = 0
  · rw [if_pos (by rw [h.previous]; omega), h.genesis hgenesis]
  · rw [if_neg (by rw [h.previous]; omega), if_pos h.current.symm]

theorem ShufflingsOk.getShufflingAtEpoch_next (h : ShufflingsOk state) :
    getShufflingAtEpoch state (computeEpochAtSlot state.slot + 1) =
      .ok state.epochCache.nextCommittees := by
  unfold getShufflingAtEpoch
  rw [if_neg (by rw [h.previous]; omega), if_neg (by rw [h.current]; omega), if_pos h.next.symm]

theorem ShufflingsOk.le_succ (h : ShufflingsOk state)
    (hshuffled : getShufflingAtEpoch state epoch = .ok shuffled) :
    epoch ≤ computeEpochAtSlot state.slot + 1 := by
  unfold getShufflingAtEpoch at hshuffled
  rw [h.previous, h.current, h.next] at hshuffled
  split_ifs at hshuffled <;> omega

theorem ShufflingsOk.length_committees (h : ShufflingsOk state)
    (hshuffled : getShufflingAtEpoch state epoch = .ok shuffled) (slot : Nat) :
    (shuffled.committees.getD (slot % SLOTS_PER_EPOCH) []).length = shuffled.committeesPerSlot := by
  obtain ⟨shuffling, rfl⟩ := h.computed shuffled (getShufflingAtEpoch_mem hshuffled)
  exact length_committees_computeEpochShuffling shuffling slot

/-! ## States of one chain -/

/-- What a slot does to the shufflings: they move when an epoch begins. -/
inductive ShufflingStep (state state' : CachedBeaconStateAllForks β) : Prop where
  | slot (epoch : computeEpochAtSlot state'.slot = computeEpochAtSlot state.slot)
      (current : state'.epochCtx.currentShuffling = state.epochCtx.currentShuffling)
      (previous : state'.epochCtx.previousShuffling = state.epochCtx.previousShuffling)
      (next : state'.epochCtx.nextShuffling = state.epochCtx.nextShuffling)
      (previousCommittees :
        state'.epochCache.previousCommittees = state.epochCache.previousCommittees)
      (currentCommittees :
        state'.epochCache.currentCommittees = state.epochCache.currentCommittees)
      (nextCommittees : state'.epochCache.nextCommittees = state.epochCache.nextCommittees)
  | epoch (epoch : computeEpochAtSlot state'.slot = computeEpochAtSlot state.slot + 1)
      (current : state'.epochCtx.currentShuffling = state.epochCtx.nextShuffling)
      (previous : state'.epochCtx.previousShuffling = state.epochCtx.currentShuffling)
      (next : state'.epochCtx.nextShuffling.epoch = state.epochCtx.nextShuffling.epoch + 1)
      (previousCommittees :
        state'.epochCache.previousCommittees = state.epochCache.currentCommittees)
      (currentCommittees : state'.epochCache.currentCommittees = state.epochCache.nextCommittees)
      (nextCommittees : ∃ shuffling,
        state'.epochCache.nextCommittees = computeEpochShuffling shuffling)

theorem shufflingStep_afterProcessEpoch {config : ChainConfig} {epochProcess : NextEpoch}
    {shuffling : List Nat}
    (hepoch : computeEpochAtSlot state'.slot = computeEpochAtSlot state.slot + 1)
    (hctx : state'.epochCtx = state.epochCtx.afterProcessEpoch config state'.slot epochProcess)
    (hcache : state'.epochCache = { state.epochCache with
      previousCommittees := state.epochCache.currentCommittees
      currentCommittees := state.epochCache.nextCommittees
      nextCommittees := computeEpochShuffling shuffling }) : ShufflingStep state state' := by
  refine .epoch hepoch ?_ ?_ ?_ ?_ ?_ ⟨shuffling, ?_⟩
  · rw [hctx]; rfl
  · rw [hctx]; rfl
  · rw [hctx]; rfl
  · rw [hcache]
  · rw [hcache]
  · rw [hcache]

abbrev Descends : CachedBeaconStateAllForks β → CachedBeaconStateAllForks β → Prop :=
  Relation.ReflTransGen ShufflingStep

theorem ShufflingsOk.step (h : ShufflingsOk state) (hstep : ShufflingStep state state') :
    ShufflingsOk state' := by
  cases hstep with
  | slot hepoch hcurrent hprevious hnext hpreviousC hcurrentC hnextC =>
    refine ⟨?_, ?_, ?_, ?_, ?_⟩
    · rw [hcurrent, hepoch, h.current]
    · rw [hprevious, hepoch, h.previous]
    · rw [hnext, hepoch, h.next]
    · rw [hepoch, hpreviousC, hcurrentC]
      exact h.genesis
    · rw [hpreviousC, hcurrentC, hnextC]
      exact h.computed
  | epoch hepoch hcurrent hprevious hnext hpreviousC hcurrentC hnextC =>
    refine ⟨?_, ?_, ?_, fun hzero => ?_, fun shuffled hmem => ?_⟩
    · rw [hcurrent, hepoch, h.next]
    · rw [hprevious, hepoch, h.current]
      rfl
    · rw [hnext, hepoch, h.next]
    · omega
    · rw [hpreviousC, hcurrentC] at hmem
      simp only [List.mem_cons, List.not_mem_nil, or_false] at hmem
      rcases hmem with rfl | rfl | rfl
      · exact h.computed _ (by simp)
      · exact h.computed _ (by simp)
      · exact hnextC

theorem ShufflingStep.epoch_le (hstep : ShufflingStep state state') :
    computeEpochAtSlot state.slot ≤ computeEpochAtSlot state'.slot := by
  cases hstep with
  | slot hepoch => exact le_of_eq hepoch.symm
  | epoch hepoch => omega

theorem ShufflingStep.getShufflingAtEpoch_eq (hstep : ShufflingStep state state')
    (h : ShufflingsOk state) (hle : computeEpochAtSlot state'.slot ≤ epoch + 1)
    (hnext : epoch ≤ computeEpochAtSlot state.slot + 1) :
    getShufflingAtEpoch state' epoch = getShufflingAtEpoch state epoch := by
  have h' := h.step hstep
  cases hstep with
  | slot hepoch hcurrent hprevious hnext hpreviousC hcurrentC hnextC =>
    unfold getShufflingAtEpoch
    rw [hcurrent, hprevious, hnext, hpreviousC, hcurrentC, hnextC]
  | epoch hepoch hcurrent hprevious hnext' hpreviousC hcurrentC hnextC =>
    rw [hepoch] at hle
    obtain rfl | rfl : epoch = computeEpochAtSlot state.slot ∨
        epoch = computeEpochAtSlot state.slot + 1 := by omega
    · rw [h'.getShufflingAtEpoch_previous hepoch.symm, h.getShufflingAtEpoch_current, hpreviousC]
    · rw [h.getShufflingAtEpoch_next, ← hepoch, h'.getShufflingAtEpoch_current, hcurrentC]

theorem Descends.shufflingsOk (hdescends : Descends state state') (h : ShufflingsOk state) :
    ShufflingsOk state' ∧ computeEpochAtSlot state.slot ≤ computeEpochAtSlot state'.slot := by
  induction hdescends with
  | refl => exact ⟨h, le_refl _⟩
  | tail _ hstep ih => exact ⟨ih.1.step hstep, ih.2.trans hstep.epoch_le⟩

/-- The shuffling that an earlier state had is the one a later state of its chain finds. -/
theorem Descends.getShufflingAtEpoch_eq (hdescends : Descends state state') (h : ShufflingsOk state)
    (hshuffled : getShufflingAtEpoch state epoch = .ok shuffled)
    (hle : computeEpochAtSlot state'.slot ≤ epoch + 1) :
    getShufflingAtEpoch state' epoch = .ok shuffled := by
  induction hdescends with
  | refl => exact hshuffled
  | tail hmid hstep ih =>
    obtain ⟨hok, hfrom⟩ := Descends.shufflingsOk hmid h
    have hbound := h.le_succ hshuffled
    rw [hstep.getShufflingAtEpoch_eq hok hle (by omega)]
    exact ih (hstep.epoch_le.trans hle)

end Lodestar.StateTransition

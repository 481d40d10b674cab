import Lodestar.Base.Tally
import Lodestar.StateTransition.RewardsSpecPhase0

/-!
# The attesters of the previous epoch

What `statusProcessEpoch` leaves in the statuses, in the terms of the spec: a
flag says that an attestation with the flag's component has the validator among
its attesters, and the inclusion is that of the first attestation with the
smallest delay.
-/

namespace Lodestar.StateTransition

open Lodestar.Base

variable [Preset] {β : Type}

/-! ## One attestation -/

/-- The flags an attestation adds; the first of them is at bit `k`. -/
def attestationFlags (k : Nat) (votedTarget votedHead : Bool) : Nat :=
  if votedTarget then
    if votedHead then 1 <<< k ||| 1 <<< (k + 1) ||| 1 <<< (k + 2) else 1 <<< k ||| 1 <<< (k + 1)
  else 1 <<< k

omit [Preset] in
theorem testBit_attestationFlags (k : Nat) (votedTarget votedHead : Bool) (j : Nat) :
    (attestationFlags k votedTarget votedHead).testBit j
      = (decide (k = j) || (votedTarget && decide (k + 1 = j)
        || votedTarget && votedHead && decide (k + 2 = j))) := by
  unfold attestationFlags
  cases votedTarget <;> cases votedHead <;>
    simp [Nat.one_shiftLeft, Nat.testBit_or, Nat.testBit_two_pow, Bool.or_assoc]

/-- What an attestation does to the status of one of its attesters. -/
def attend (state : CachedBeaconStateAllForks β) (epoch k : Nat) (att : PendingAttestation)
    (status : IAttesterStatus) : IAttesterStatus :=
  let included :=
    if epoch = state.epochCtx.previousShuffling.epoch then withInclusion att status else status
  { included with
    flags := included.flags ||| attestationFlags k (Spec.isMatchingTarget state epoch att)
      (Spec.isBlockRoot (getBlockRootAtSlot state att.data.slot) att.data.beaconBlockRoot) }

omit [Preset] in
theorem withInclusion_withInclusion (att : PendingAttestation) (status : IAttesterStatus) :
    withInclusion att (withInclusion att status) = withInclusion att status := by
  unfold withInclusion
  split <;> simp_all

variable {state : CachedBeaconStateAllForks β} {epoch k : Nat} {actualTargetBlockRoot : Root}
  {statuses statuses' : List IAttesterStatus} {att : PendingAttestation}

/-- A call that went through found a committee, and a block root unless the vote is for no past
slot. -/
theorem statusProcessAttestation_inv (h : statusProcessAttestation state epoch (1 <<< k)
      (1 <<< (k + 1)) (1 <<< (k + 2)) actualTargetBlockRoot statuses att = .ok statuses') :
    (Spec.getAttestingIndices state att).foldl (fun statuses p =>
      statuses.modify p fun status => { status with
        flags := status.flags ||| attestationFlags k
          (decide (att.data.target.root = actualTargetBlockRoot))
          (Spec.isBlockRoot (getBlockRootAtSlot state att.data.slot) att.data.beaconBlockRoot) })
      (if epoch = state.epochCtx.previousShuffling.epoch then
        (Spec.getAttestingIndices state att).foldl
          (fun statuses p => statuses.modify p (withInclusion att)) statuses
      else statuses) = statuses' := by
  unfold statusProcessAttestation at h
  dsimp only at h
  unfold Spec.getAttestingIndices
  by_cases hslot : att.data.slot < state.slot
  · rw [if_pos hslot] at h
    obtain ⟨blockRoot, hblockRoot, h⟩ := eq_ok_of_bind h
    obtain ⟨votedHead, hvotedHead, h⟩ := eq_ok_of_bind h
    obtain ⟨committee, hcommittee, h⟩ := eq_ok_of_bind h
    rw [hblockRoot, hcommittee]
    cases hvotedHead
    exact Except.ok.inj h
  · rw [if_neg hslot] at h
    obtain ⟨votedHead, hvotedHead, h⟩ := eq_ok_of_bind h
    obtain ⟨committee, hcommittee, h⟩ := eq_ok_of_bind h
    have hblockRoot : ∃ e, getBlockRootAtSlot state att.data.slot = .error e := by
      unfold getBlockRootAtSlot
      rw [if_pos (Nat.le_of_not_lt hslot)]
      exact ⟨_, rfl⟩
    obtain ⟨e, hblockRoot⟩ := hblockRoot
    rw [hblockRoot, hcommittee]
    cases hvotedHead
    exact Except.ok.inj h

theorem statusProcessAttestation_ok (hroot : getBlockRoot state epoch = .ok actualTargetBlockRoot)
    (h : statusProcessAttestation state epoch (1 <<< k) (1 <<< (k + 1)) (1 <<< (k + 2))
      actualTargetBlockRoot statuses att = .ok statuses') (i : Nat) :
    statuses'[i]? = statuses[i]?.map fun status =>
      if i ∈ Spec.getAttestingIndices state att then attend state epoch k att status
      else status := by
  have htarget : Spec.isMatchingTarget state epoch att
      = decide (att.data.target.root = actualTargetBlockRoot) := by
    unfold Spec.isMatchingTarget
    rw [hroot]
    rfl
  have hflags : ∀ (flags : Nat) (status : IAttesterStatus),
      { status with flags := status.flags ||| flags ||| flags }
        = { status with flags := status.flags ||| flags } := by
    intro flags status
    rw [Nat.or_assoc, Nat.or_self]
  rw [← statusProcessAttestation_inv h, getElem?_foldl_modify (fun status => hflags _ status)]
  unfold attend
  rw [htarget]
  by_cases hepoch : epoch = state.epochCtx.previousShuffling.epoch
  · simp only [if_pos hepoch]
    rw [getElem?_foldl_modify (withInclusion_withInclusion att), Option.map_map]
    congr 1
    funext status
    by_cases hi : i ∈ Spec.getAttestingIndices state att <;> simp [hi]
  · simp only [if_neg hepoch]

/-! ## All of them -/

/-- The attestations `i` is an attester of. -/
def attestationsOf (state : CachedBeaconStateAllForks β) (attestations : List PendingAttestation)
    (i : Nat) : List PendingAttestation :=
  attestations.filter fun att => decide (i ∈ Spec.getAttestingIndices state att)

theorem foldlM_statusProcessAttestation_ok {attestations : List PendingAttestation}
    (hroot : getBlockRoot state epoch = .ok actualTargetBlockRoot)
    (h : attestations.foldlM (statusProcessAttestation state epoch (1 <<< k) (1 <<< (k + 1))
      (1 <<< (k + 2)) actualTargetBlockRoot) statuses = .ok statuses') (i : Nat) :
    statuses'[i]? = statuses[i]?.map fun status =>
      (attestationsOf state attestations i).foldl
        (fun status att => attend state epoch k att status) status := by
  induction attestations generalizing statuses with
  | nil =>
    cases h
    simp [attestationsOf]
  | cons att attestations ih =>
    rw [List.foldlM_cons] at h
    obtain ⟨statuses₁, hstep, h⟩ := eq_ok_of_bind h
    rw [ih h, statusProcessAttestation_ok hroot hstep i, Option.map_map]
    congr 1
    funext status
    unfold attestationsOf
    by_cases hi : i ∈ Spec.getAttestingIndices state att <;> simp [hi]

theorem statusProcessEpoch_ok {attestations : List PendingAttestation}
    (h : statusProcessEpoch state statuses attestations epoch (1 <<< k) (1 <<< (k + 1))
      (1 <<< (k + 2)) = .ok statuses') (i : Nat) :
    statuses'[i]? = statuses[i]?.map fun status =>
      (attestationsOf state attestations i).foldl
        (fun status att => attend state epoch k att status) status := by
  unfold statusProcessEpoch at h
  by_cases hempty : attestations.isEmpty
  · rw [if_pos hempty] at h
    cases h
    rw [List.isEmpty_iff.mp hempty]
    simp [attestationsOf]
  · rw [if_neg hempty] at h
    obtain ⟨root, hroot, h⟩ := eq_ok_of_bind h
    exact foldlM_statusProcessAttestation_ok hroot h i

/-! ## One status -/

theorem testBit_foldl_attend (attestations : List PendingAttestation) (status : IAttesterStatus)
    (j : Nat) :
    (attestations.foldl (fun status att => attend state epoch k att status) status).flags.testBit j
      = (status.flags.testBit j || attestations.any fun att =>
        (attestationFlags k (Spec.isMatchingTarget state epoch att) (Spec.isBlockRoot
          (getBlockRootAtSlot state att.data.slot) att.data.beaconBlockRoot)).testBit j) := by
  induction attestations generalizing status with
  | nil => simp
  | cons att attestations ih =>
    have hincluded : (attend state epoch k att status).flags
        = status.flags ||| attestationFlags k (Spec.isMatchingTarget state epoch att)
          (Spec.isBlockRoot (getBlockRootAtSlot state att.data.slot)
            att.data.beaconBlockRoot) := by
      unfold attend withInclusion
      split
      · split <;> rfl
      · rfl
    rw [List.foldl_cons, ih, hincluded, Nat.testBit_or, List.any_cons, Bool.or_assoc]

/-- The inclusion after all attestations of an attester: the first with the smallest delay. -/
theorem inclusion_foldl_attend (hepoch : epoch = state.epochCtx.previousShuffling.epoch)
    (attestations : List PendingAttestation) {status : IAttesterStatus}
    (hstatus : status.proposerIndex = none) :
    (attestations.foldl (fun status att => attend state epoch k att status) status).proposerIndex
        = (attestations.argmin (·.inclusionDelay)).map (·.proposerIndex) ∧
    ∀ att, attestations.argmin (·.inclusionDelay) = some att →
      (attestations.foldl (fun status att => attend state epoch k att status) status).inclusionDelay
        = att.inclusionDelay := by
  induction attestations using List.reverseRecOn with
  | nil => exact ⟨hstatus, fun att h => by cases h⟩
  | append_singleton attestations att ih =>
    rw [List.foldl_append, List.argmin_concat]
    obtain ⟨ihp, ihd⟩ := ih
    generalize attestations.foldl (fun status att => attend state epoch k att status) status = s
      at ihp ihd
    show (attend state epoch k att s).proposerIndex = _ ∧ ∀ _, _ →
      (attend state epoch k att s).inclusionDelay = _
    unfold attend withInclusion
    rw [if_pos hepoch, ihp]
    cases hmin : attestations.argmin (·.inclusionDelay) with
    | none => simp
    | some first =>
      have hdelay := ihd first hmin
      by_cases hlt : att.inclusionDelay < first.inclusionDelay
      · simp [hdelay, hlt]
      · simp [hdelay, hlt, ihp, hmin]

theorem inclusion_foldl_attend_of_ne (hepoch : epoch ≠ state.epochCtx.previousShuffling.epoch)
    (attestations : List PendingAttestation) (status : IAttesterStatus) :
    (attestations.foldl (fun status att => attend state epoch k att status) status).proposerIndex
        = status.proposerIndex ∧
    (attestations.foldl (fun status att => attend state epoch k att status) status).inclusionDelay
        = status.inclusionDelay := by
  induction attestations generalizing status with
  | nil => exact ⟨rfl, rfl⟩
  | cons att attestations ih =>
    rw [List.foldl_cons, (ih _).1, (ih _).2]
    unfold attend
    rw [if_neg hepoch]
    exact ⟨rfl, rfl⟩

/-! ## The statuses -/

section

variable {state : CachedBeaconStatePhase0 β} {process : EpochProcess}

theorem statuses_phase0 (h : state.beforeProcessEpoch = .ok process) (i : Nat) :
    process.statuses[i]? = state.validators[i]?.map fun validator =>
      (attestationsOf state.toCachedBeaconStateAllForks state.currentEpochAttestations i).foldl
        (fun status att => attend state.toCachedBeaconStateAllForks
          state.epochCtx.currentShuffling.epoch 3 att status)
        ((attestationsOf state.toCachedBeaconStateAllForks state.previousEpochAttestations i).foldl
          (fun status att => attend state.toCachedBeaconStateAllForks
            state.epochCtx.previousShuffling.epoch 0 att status)
          (validatorStatus state.epochCtx.previousShuffling.epoch
            state.epochCtx.currentShuffling.epoch validator)) := by
  obtain ⟨hstatuses, -⟩ := beforeProcessEpoch_ok h
  obtain ⟨statuses, hprev, hcurr⟩ := eq_ok_of_bind hstatuses
  have hprev := statusProcessEpoch_ok (k := 0) hprev i
  have hcurr := statusProcessEpoch_ok (k := 3) hcurr i
  rw [hcurr, hprev, List.getElem?_map, Option.map_map, Option.map_map]
  rfl

theorem length_statuses_phase0 (h : state.beforeProcessEpoch = .ok process) :
    process.statuses.length = state.validators.length :=
  length_eq_of_getElem?_map (statuses_phase0 h)

/-- The bit of a component's flag. -/
def Spec.Component.index : Spec.Component → Nat
  | .source => 0
  | .target => 1
  | .head => 2

theorem testBit_attestationFlags_component (state : CachedBeaconStateAllForks β) (epoch : Nat)
    (component : Spec.Component) (att : PendingAttestation) :
    (attestationFlags 0 (Spec.isMatchingTarget state epoch att) (Spec.isBlockRoot
      (getBlockRootAtSlot state att.data.slot) att.data.beaconBlockRoot)).testBit component.index
      = Spec.isMatching state epoch component att := by
  rw [testBit_attestationFlags]
  cases component <;> simp [Spec.Component.index, Spec.isMatching, Spec.isMatchingHead]

theorem any_attestationsOf (state : CachedBeaconStateAllForks β)
    (attestations : List PendingAttestation) (i : Nat) (p : PendingAttestation → Bool) :
    (attestationsOf state attestations i).any p
      = (attestations.filter p).any fun att => decide (i ∈ Spec.getAttestingIndices state att) := by
  unfold attestationsOf
  rw [List.any_filter, List.any_filter]
  congr 1
  funext att
  exact Bool.and_comm ..

theorem testBit_statuses_phase0 (h : state.beforeProcessEpoch = .ok process) {i : Nat}
    {status : IAttesterStatus} {validator : Validator} (hs : process.statuses[i]? = some status)
    (hv : state.validators[i]? = some validator) {j : Nat} (hj : j < 3 ∨ 6 ≤ j) :
    status.flags.testBit j
      = ((validatorStatus state.epochCtx.previousShuffling.epoch
          state.epochCtx.currentShuffling.epoch validator).flags.testBit j
        || (attestationsOf state.toCachedBeaconStateAllForks state.previousEpochAttestations i).any
          fun att => (attestationFlags 0
            (Spec.isMatchingTarget state.toCachedBeaconStateAllForks
              state.epochCtx.previousShuffling.epoch att)
            (Spec.isBlockRoot (getBlockRootAtSlot state.toCachedBeaconStateAllForks att.data.slot)
              att.data.beaconBlockRoot)).testBit j) := by
  have hstatus := statuses_phase0 h i
  rw [hs, hv, Option.map_some] at hstatus
  rw [Option.some.inj hstatus, testBit_foldl_attend, testBit_foldl_attend]
  have hcurrent : ∀ votedTarget votedHead, (attestationFlags 3 votedTarget votedHead).testBit j
      = false := by
    intro votedTarget votedHead
    rw [testBit_attestationFlags, decide_eq_false (by omega), decide_eq_false (by omega),
      decide_eq_false (by omega)]
    simp
  simp [hcurrent]

theorem inclusion_statuses_phase0 (h : state.beforeProcessEpoch = .ok process)
    (hepoch : state.epochCtx.currentShuffling.epoch ≠ state.epochCtx.previousShuffling.epoch)
    {i : Nat} {status : IAttesterStatus} (hs : process.statuses[i]? = some status) :
    status.proposerIndex = (Spec.inclusionAttestation state i).map (·.proposerIndex) ∧
    ∀ att, Spec.inclusionAttestation state i = some att →
      status.inclusionDelay = att.inclusionDelay := by
  have hstatus := (statuses_phase0 h i).symm.trans hs
  obtain ⟨validator, -, hstatus⟩ := Option.map_eq_some_iff.mp hstatus
  rw [← hstatus, (inclusion_foldl_attend_of_ne hepoch _ _).1,
    (inclusion_foldl_attend_of_ne hepoch _ _).2]
  exact inclusion_foldl_attend rfl _ rfl

/-! ## Markers -/

theorem CacheAgrees.hasMarkers_eligible_phase0 (hagree : CacheAgrees state.toCachedBeaconState)
    (h : state.beforeProcessEpoch = .ok process) {i : Nat} {status : IAttesterStatus}
    (hs : process.statuses[i]? = some status) :
    hasMarkers status.flags FLAG_ELIGIBLE_ATTESTER
      = Spec.isEligible state.validators (computeEpochAtSlot state.slot - 1) i := by
  have hstatus := (statuses_phase0 h i).symm.trans hs
  obtain ⟨validator, hv, -⟩ := Option.map_eq_some_iff.mp hstatus
  have hprev : ∀ votedTarget votedHead, (attestationFlags 0 votedTarget votedHead).testBit 7
      = false := by decide
  unfold FLAG_ELIGIBLE_ATTESTER Spec.isEligible
  rw [hasMarkers_one_shiftLeft, testBit_statuses_phase0 h hs hv (.inr (by omega)), hv,
    Option.any_some, testBit_validatorStatus _ _ _ (by omega), hagree.previousEpoch]
  simp [hprev]

theorem CacheAgrees.hasMarkers_attesting (hagree : CacheAgrees state.toCachedBeaconState)
    (h : state.beforeProcessEpoch = .ok process) {i : Nat} {status : IAttesterStatus}
    (hs : process.statuses[i]? = some status) (component : Spec.Component) :
    hasMarkers status.flags (1 <<< component.index ||| FLAG_UNSLASHED)
      = Spec.isUnslashedAttesting state.toCachedBeaconStateAllForks
        (Spec.matchingAttestations state component) i := by
  have hstatus := (statuses_phase0 h i).symm.trans hs
  obtain ⟨validator, hv, -⟩ := Option.map_eq_some_iff.mp hstatus
  have hi : i < state.validators.length := (List.getElem?_eq_some_iff.mp hv).1
  have hprev : ∀ votedTarget votedHead, (attestationFlags 0 votedTarget votedHead).testBit 6
      = false := by decide
  have hindex : component.index < 3 := by cases component <;> decide
  have hunslashed : hasMarkers status.flags FLAG_UNSLASHED = !validator.slashed := by
    unfold FLAG_UNSLASHED
    rw [hasMarkers_one_shiftLeft, testBit_statuses_phase0 h hs hv (.inr (by omega)),
      testBit_validatorStatus _ _ _ (by omega)]
    simp [hprev]
  rw [hasMarkers_or, hunslashed, hasMarkers_one_shiftLeft,
    testBit_statuses_phase0 h hs hv (.inl hindex), testBit_validatorStatus _ _ _ (by omega),
    decide_eq_false (by omega), decide_eq_false (by omega)]
  simp only [testBit_attestationFlags_component, any_attestationsOf]
  unfold Spec.isUnslashedAttesting Spec.isSlashed Spec.matchingAttestations
  rw [hv, decide_eq_true hi, hagree.previousEpoch]
  simp


end

end Lodestar.StateTransition

import Lodestar.Chain.SyncContributionPool

/-!
# The slots that the pools retain

After a prune a pool should hold what is not below the bound of the clock, and
nothing else. `pruneBySlot` does so when the pool `FitsWindow`; what is below
the bound of a prune is refused in any case.
-/

namespace Lodestar.Chain

open Lodestar.Base Lodestar.StateTransition

variable {B P : Type}

/-! ## Additions -/

section

variable (bls : BlsSignature B P) (hashTreeRoot : AttestationData → Root)

def AttestationPool.Adds (this after : AttestationPool P) : Prop :=
  ∃ attestation, after = stateOf (AttestationPool.add bls hashTreeRoot attestation this)

def AggregatedAttestationPool.Adds (this after : AggregatedAttestationPool B) : Prop :=
  ∃ attestation attestingIndices committee, after =
    stateOf (AggregatedAttestationPool.add bls hashTreeRoot attestation attestingIndices committee
      this)

def SyncContributionAndProofPool.Adds (this after : SyncContributionAndProofPool B) : Prop :=
  ∃ contribution syncCommitteeParticipants, after =
    stateOf (SyncContributionAndProofPool.add contribution syncCommitteeParticipants this)

end

open SlotPool in
/-- In every run of each pool a prune leaves exactly the window when the pool fits it, and what is
below the bound of an earlier prune is refused. -/
theorem prune_retainsWindow_iff [Preset] (bls : BlsSignature B P)
    (hashTreeRoot : AttestationData → Root) :
    (∀ pruned (this : AttestationPool P),
      Run AttestationPool.SLOTS_RETAINED (AttestationPool.Adds bls hashTreeRoot) pruned this →
      (∀ clockSlot, RetainsWindow AttestationPool.SLOTS_RETAINED clockSlot this
          (AttestationPool.prune this clockSlot) ↔
        FitsWindow AttestationPool.SLOTS_RETAINED clockSlot this) ∧
      ∀ clockSlot ∈ pruned, ∀ attestation : AggregateAttestation B,
        attestation.data.slot < clockSlot - AttestationPool.SLOTS_RETAINED →
        AttestationPool.add bls hashTreeRoot attestation this = .ok .old this) ∧
    (∀ pruned (this : AggregatedAttestationPool B),
      Run SLOTS_PER_EPOCH (AggregatedAttestationPool.Adds bls hashTreeRoot) pruned this →
      (∀ clockSlot, RetainsWindow SLOTS_PER_EPOCH clockSlot this
          (AggregatedAttestationPool.prune this clockSlot) ↔
        FitsWindow SLOTS_PER_EPOCH clockSlot this) ∧
      ∀ clockSlot ∈ pruned, ∀ (attestation : AggregateAttestation B) attestingIndices committee,
        attestation.data.slot < clockSlot - SLOTS_PER_EPOCH →
        AggregatedAttestationPool.add bls hashTreeRoot attestation attestingIndices committee this =
          .ok .old this) ∧
    (∀ pruned (this : SyncContributionAndProofPool B),
      Run SyncContributionAndProofPool.SLOTS_RETAINED SyncContributionAndProofPool.Adds pruned this →
      (∀ clockSlot, RetainsWindow SyncContributionAndProofPool.SLOTS_RETAINED clockSlot this
          (SyncContributionAndProofPool.prune this clockSlot) ↔
        FitsWindow SyncContributionAndProofPool.SLOTS_RETAINED clockSlot this) ∧
      ∀ clockSlot ∈ pruned, ∀ (contribution : SyncContribution B) syncCommitteeParticipants,
        contribution.slot < clockSlot - SyncContributionAndProofPool.SLOTS_RETAINED →
        SyncContributionAndProofPool.add contribution syncCommitteeParticipants this =
          .error (.slotTooLow contribution.slot this.lowestPermissibleSlot) this) := by
  have hold : ∀ {slotsRetained slot : Nat} {clockSlot : Int}, slot < clockSlot - slotsRetained →
      isRecent slotsRetained clockSlot slot = false := fun h =>
    decide_eq_false (Int.not_le.2 h)
  refine ⟨fun pruned this hrun => ⟨fun clockSlot => retainsWindow_prune_iff, ?_⟩,
    fun pruned this hrun => ⟨fun clockSlot => retainsWindow_prune_iff, ?_⟩,
    fun pruned this hrun => ⟨fun clockSlot => retainsWindow_prune_iff, ?_⟩⟩
  · intro clockSlot hclock attestation hslot
    have hadds : ∀ {a b : AttestationPool P}, AttestationPool.Adds bls hashTreeRoot a b →
        b.lowestPermissibleSlot = a.lowestPermissibleSlot := by
      rintro a b ⟨attestation, rfl⟩
      exact SlotPool.lowestPermissibleSlot_add rfl ..
    exact if_pos (hrun.lt_lowestPermissibleSlot hadds hclock (hold hslot))
  · intro clockSlot hclock attestation attestingIndices committee hslot
    have hadds : ∀ {a b : AggregatedAttestationPool B},
        AggregatedAttestationPool.Adds bls hashTreeRoot a b →
        b.lowestPermissibleSlot = a.lowestPermissibleSlot := by
      rintro a b ⟨attestation, attestingIndices, committee, rfl⟩
      exact SlotPool.lowestPermissibleSlot_add rfl ..
    exact if_pos (hrun.lt_lowestPermissibleSlot hadds hclock (hold hslot))
  · intro clockSlot hclock contribution syncCommitteeParticipants hslot
    have hadds : ∀ {a b : SyncContributionAndProofPool B},
        SyncContributionAndProofPool.Adds a b →
        b.lowestPermissibleSlot = a.lowestPermissibleSlot := by
      rintro a b ⟨contribution, syncCommitteeParticipants, rfl⟩
      exact SlotPool.lowestPermissibleSlot_add rfl ..
    exact if_pos (hrun.lt_lowestPermissibleSlot hadds hclock (hold hslot))

/-! ## Pools of attestations -/

attribute [local instance] minimal

open MatchingDataAttestationGroup (signers)

def dataRoot (data : AttestationData) : Root := data.beaconBlockRoot

/-- The attestation of validator 3 at the slot. -/
def attestationAt (slot : Nat) : AggregateAttestation (Multiset Nat) :=
  ⟨[true], ⟨slot, 0, 0xb1, ⟨0, 0xa0⟩, ⟨0, 0xa0⟩⟩, {3}⟩

def attestationsAt (slots : List Nat) : AttestationPool (Multiset Nat) :=
  slots.foldl (fun this slot => stateOf (AttestationPool.add signers dataRoot (attestationAt slot)
    this)) .new

theorem run_attestationsAt (slots : List Nat) :
    SlotPool.Run AttestationPool.SLOTS_RETAINED (AttestationPool.Adds signers dataRoot) []
      (attestationsAt slots) := by
  induction slots using List.reverseRecOn with
  | nil => exact .new
  | append_singleton slots slot ih =>
    unfold attestationsAt
    rw [List.foldl_append]
    exact .add ih ⟨attestationAt slot, rfl⟩

theorem prune_attestationsAt :
    SlotPool.RetainsWindow 3 6 (attestationsAt [5]) ((attestationsAt [5]).prune 6) ∧
      AttestationPool.add signers dataRoot (attestationAt 2) ((attestationsAt [5]).prune 6) =
        .ok .old ((attestationsAt [5]).prune 6) := by
  have hpools := (prune_retainsWindow_iff signers dataRoot).1
  have hfits : SlotPool.FitsWindow 3 6 (attestationsAt [5]) := ⟨by decide, .inl (by decide)⟩
  refine ⟨((hpools [] _ (run_attestationsAt [5])).1 6).2 hfits, ?_⟩
  have hrun : SlotPool.Run AttestationPool.SLOTS_RETAINED (AttestationPool.Adds signers dataRoot)
      [6] ((attestationsAt [5]).prune 6) := .prune (run_attestationsAt [5]) (by simp)
  exact (hpools [6] _ hrun).2 6 List.mem_cons_self (attestationAt 2) (by decide)

/-- An old slot stays when there are few slots; with four slots in the window one is lost. -/
theorem prune_attestationsAt_wrong :
    (5 ∈ ((attestationsAt [5]).prune 100).bySlot.keys ∧
      ¬ SlotPool.RetainsWindow 3 100 (attestationsAt [5]) ((attestationsAt [5]).prune 100)) ∧
    (5 ∉ ((attestationsAt [5, 6, 7, 8]).prune 8).bySlot.keys ∧
      ¬ SlotPool.RetainsWindow 3 8 (attestationsAt [5, 6, 7, 8])
        ((attestationsAt [5, 6, 7, 8]).prune 8)) := by
  have hold : 5 ∈ ((attestationsAt [5]).prune 100).bySlot.keys := by decide +kernel
  have hlost : 5 ∉ ((attestationsAt [5, 6, 7, 8]).prune 8).bySlot.keys := by decide +kernel
  refine ⟨⟨hold, fun h => ?_⟩, hlost, fun h => ?_⟩
  · have hrecent := h.none_below 5 hold
    revert hrecent
    decide
  · have hkept := h.others_kept 5 (by decide)
    rw [OrderedMap.get_eq_none_iff.2 hlost] at hkept
    have hheld : 5 ∈ (attestationsAt [5, 6, 7, 8]).bySlot.keys := by decide +kernel
    exact OrderedMap.get_eq_none_iff.1 hkept.symm hheld

end Lodestar.Chain

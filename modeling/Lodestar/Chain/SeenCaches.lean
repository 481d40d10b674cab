import Lodestar.Base.OrderedMap
import Mathlib.Data.Finset.Insert
import Mathlib.Tactic

/-!
# Seen caches

The caches of `chain/seenCache` for blocks and for the two kinds of sync
committee messages. The last two differ in how long they keep a slot.
-/

namespace Lodestar.Chain

open Lodestar.Base

/-! ## Block proposers -/

structure SeenBlockProposers where
  proposerIndexesBySlot : OrderedMap Nat (Finset Nat)
  finalizedSlot : Nat

namespace SeenBlockProposers

def new : SeenBlockProposers := ⟨.empty, 0⟩

variable (this : SeenBlockProposers)

def isKnown (blockSlot proposerIndex : Nat) : Bool :=
  match this.proposerIndexesBySlot.get blockSlot with
  | some proposerIndexes => proposerIndex ∈ proposerIndexes
  | none => false

def add (blockSlot proposerIndex : Nat) : Except String SeenBlockProposers :=
  if blockSlot < this.finalizedSlot then
    .error s!"blockSlot {blockSlot} < finalizedSlot {this.finalizedSlot}"
  else
    .ok { this with
      proposerIndexesBySlot := this.proposerIndexesBySlot.set blockSlot
        (insert proposerIndex ((this.proposerIndexesBySlot.get blockSlot).getD ∅)) }

def prune (finalizedSlot : Nat) : SeenBlockProposers where
  finalizedSlot := finalizedSlot
  proposerIndexesBySlot :=
    (this.proposerIndexesBySlot.keys.filter (· < finalizedSlot)).foldl (·.delete ·)
      this.proposerIndexesBySlot

variable {this this' : SeenBlockProposers} {blockSlot proposerIndex : Nat}

theorem isKnown_prune {finalizedSlot slot index : Nat} :
    (this.prune finalizedSlot).isKnown slot index = true ↔
      finalizedSlot ≤ slot ∧ this.isKnown slot index = true := by
  unfold isKnown prune
  rw [OrderedMap.get_foldl_delete_filter]
  by_cases hlt : slot < finalizedSlot
  · simp [hlt, Nat.not_le.2 hlt]
  · simp [hlt, Nat.le_of_not_lt hlt]

theorem add_eq_ok (h : this.add blockSlot proposerIndex = .ok this') :
    this.finalizedSlot ≤ blockSlot ∧ this'.finalizedSlot = this.finalizedSlot ∧
      ∀ slot index, this'.isKnown slot index = true ↔
        this.isKnown slot index = true ∨ (slot = blockSlot ∧ index = proposerIndex) := by
  unfold add at h
  split_ifs at h with hlow
  obtain rfl := Except.ok.inj h
  refine ⟨Nat.le_of_not_lt hlow, rfl, fun slot index => ?_⟩
  unfold isKnown
  dsimp only
  rw [OrderedMap.get_set]
  by_cases heq : slot = blockSlot
  · subst heq
    cases this.proposerIndexesBySlot.get slot with
    | none => simp
    | some indexes => simp [or_comm]
  · simp [heq]

end SeenBlockProposers

/-! ## Sync committee messages -/

def seenCacheKey (subnet validatorIndex : Nat) : String := s!"{subnet}-{validatorIndex}"

/-- `SeenSyncCommitteeMessages` and `SeenContributionAndProof`. -/
structure SeenBySlot where
  seenCacheBySlot : OrderedMap Nat (Finset String)

namespace SeenBySlot

def new : SeenBySlot := ⟨.empty⟩

variable (this : SeenBySlot)

/-- The validator is the aggregator of a contribution, and the subnet is its subcommittee. -/
def isKnown (slot subnet validatorIndex : Nat) : Bool :=
  match this.seenCacheBySlot.get slot with
  | some keys => seenCacheKey subnet validatorIndex ∈ keys
  | none => false

def add (slot subnet validatorIndex : Nat) : SeenBySlot where
  seenCacheBySlot := this.seenCacheBySlot.set slot
    (insert (seenCacheKey subnet validatorIndex) ((this.seenCacheBySlot.get slot).getD ∅))

/-- `prune`, where `maxSlotsInCache` slots are kept. -/
def pruneSlots (maxSlotsInCache : Nat) (clockSlot : Int) : SeenBySlot where
  seenCacheBySlot :=
    (this.seenCacheBySlot.keys.filter fun (slot : Nat) =>
      (slot : Int) < clockSlot - maxSlotsInCache).foldl (·.delete ·) this.seenCacheBySlot

variable {this : SeenBySlot} {slot subnet validatorIndex : Nat}

theorem isKnown_pruneSlots {maxSlotsInCache : Nat} {clockSlot : Int} :
    (this.pruneSlots maxSlotsInCache clockSlot).isKnown slot subnet validatorIndex = true ↔
      clockSlot - maxSlotsInCache ≤ slot ∧ this.isKnown slot subnet validatorIndex = true := by
  unfold isKnown pruneSlots
  rw [OrderedMap.get_foldl_delete_filter]
  by_cases hlt : (slot : Int) < clockSlot - maxSlotsInCache
  · simp [hlt, Int.not_le.2 hlt, -tsub_le_iff_right]
  · simp [hlt, Int.not_lt.1 hlt, -tsub_le_iff_right]

theorem isKnown_add_self :
    (this.add slot subnet validatorIndex).isKnown slot subnet validatorIndex = true := by
  unfold isKnown add
  simp

theorem isKnown_add {slot' subnet' validatorIndex' : Nat}
    (h : this.isKnown slot' subnet' validatorIndex' = true) :
    (this.add slot subnet validatorIndex).isKnown slot' subnet' validatorIndex' = true := by
  unfold isKnown add at *
  dsimp only
  rw [OrderedMap.get_set]
  by_cases heq : slot' = slot
  · subst heq
    cases hkeys : this.seenCacheBySlot.get slot' with
    | none => simp [hkeys] at h
    | some keys =>
      rw [hkeys] at h
      simpa using .inr (of_decide_eq_true h)
  · rwa [if_neg heq]

end SeenBySlot

namespace SeenSyncCommitteeMessages

def MAX_SLOTS_IN_CACHE : Nat := 3

def prune (this : SeenBySlot) (clockSlot : Int) : SeenBySlot :=
  this.pruneSlots MAX_SLOTS_IN_CACHE clockSlot

end SeenSyncCommitteeMessages

namespace SeenContributionAndProof

def MAX_SLOTS_IN_CACHE : Nat := 8

def prune (this : SeenBySlot) (headSlot : Int) : SeenBySlot :=
  this.pruneSlots MAX_SLOTS_IN_CACHE headSlot

end SeenContributionAndProof

end Lodestar.Chain

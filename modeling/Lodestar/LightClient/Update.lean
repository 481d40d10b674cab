import Lodestar.LightClient.Types
import Mathlib.Data.Prod.Lex

/-!
# Which update is better

`isBetterUpdate` of the server and of the light client itself, and the order
their comments give: finalized with more than 2/3 of the committee first, then
the bits, then the older header.
-/

namespace Lodestar.LightClient

variable [Preset]

/-! ## In the source -/

def sumBits {n : Nat} (bits : Vector Bool n) : Nat :=
  bits.toList.foldl (fun sum bit => if bit then sum + 1 else sum) 0

/-- The update with more bits; on ties, `prevUpdate`. -/
def isBetterUpdate (prevUpdate : PartialLightClientUpdate) (nextSyncAggregate : SyncAggregate)
    (nextSyncAttestedData : SyncAttestedData) : Bool :=
  let nextBitCount := sumBits nextSyncAggregate.syncCommitteeBits
  let prevBitCount := sumBits prevUpdate.syncAggregate.syncCommitteeBits
  -- finalized if participation is over 66%
  if !prevUpdate.isFinalized && nextSyncAttestedData.isFinalized &&
      nextBitCount * 3 > SYNC_COMMITTEE_SIZE * 2 then true
  else if prevBitCount > nextBitCount then false
  else if prevBitCount < nextBitCount then true
  -- else keep the oldest
  else prevUpdate.attestedHeader.slot > nextSyncAttestedData.attestedHeader.slot

/-- `LightclientUpdateStats` of the light client. -/
structure LightclientUpdateStats where
  isFinalized : Bool
  participation : Nat
  slot : Nat
  deriving DecidableEq

namespace LightclientUpdateStats

/-- `isBetterUpdate` of `light-client/src/utils/update.ts`. -/
def isBetterUpdate (prev next : LightclientUpdateStats) : Bool :=
  if !prev.isFinalized && next.isFinalized && next.participation * 3 > SYNC_COMMITTEE_SIZE * 2 then
    true
  else if prev.participation > next.participation then false
  else if prev.participation < next.participation then true
  else prev.slot > next.slot

end LightclientUpdateStats

def PartialLightClientUpdate.stats (update : PartialLightClientUpdate) : LightclientUpdateStats where
  isFinalized := update.isFinalized
  participation := sumBits update.syncAggregate.syncCommitteeBits
  slot := update.attestedHeader.slot

/-- A sync aggregate with the data it attests. -/
structure SignedData where
  syncAggregate : SyncAggregate
  attestedData : SyncAttestedData
  deriving DecidableEq

def SignedData.stats (signed : SignedData) : LightclientUpdateStats where
  isFinalized := signed.attestedData.isFinalized
  participation := sumBits signed.syncAggregate.syncCommitteeBits
  slot := signed.attestedData.attestedHeader.slot

theorem isBetterUpdate_eq (update : PartialLightClientUpdate) (signed : SignedData) :
    isBetterUpdate update signed.syncAggregate signed.attestedData =
      update.stats.isBetterUpdate signed.stats := rfl

/-! ## The documented order -/

namespace LightclientUpdateStats

/-- Finalized, with more than 2/3 of the committee. -/
def Supermajority (stats : LightclientUpdateStats) : Prop :=
  stats.isFinalized = true ∧ stats.participation * 3 > SYNC_COMMITTEE_SIZE * 2

instance (stats : LightclientUpdateStats) : Decidable stats.Supermajority :=
  inferInstanceAs (Decidable (_ ∧ _))

/-- The bits first, then the age. -/
def weight (stats : LightclientUpdateStats) : Nat ×ₗ Natᵒᵈ :=
  toLex (stats.participation, OrderDual.toDual stats.slot)

/-- How good an update is; greater is better. -/
def goodness (stats : LightclientUpdateStats) : Bool ×ₗ Nat ×ₗ Natᵒᵈ :=
  toLex (decide stats.Supermajority, stats.weight)

variable {prev next : LightclientUpdateStats}

omit [Preset] in
theorem weight_lt_iff : prev.weight < next.weight ↔ prev.participation < next.participation ∨
    prev.participation = next.participation ∧ next.slot < prev.slot :=
  Prod.Lex.lt_iff

omit [Preset] in
theorem participation_le_of_weight_le (h : prev.weight ≤ next.weight) :
    prev.participation ≤ next.participation :=
  Prod.Lex.monotone_fst _ _ h

theorem goodness_le_iff : prev.goodness ≤ next.goodness ↔
    (¬ prev.Supermajority ∧ next.Supermajority) ∨
      ((prev.Supermajority ↔ next.Supermajority) ∧ prev.weight ≤ next.weight) := by
  rw [goodness, goodness, Prod.Lex.toLex_le_toLex]
  by_cases hp : prev.Supermajority <;> by_cases hn : next.Supermajority <;> simp [hp, hn]

/-- A finalized majority replaces what is not finalized; apart from that the weight decides. -/
theorem isBetterUpdate_iff : prev.isBetterUpdate next = true ↔
    (prev.isFinalized = false ∧ next.Supermajority) ∨ prev.weight < next.weight := by
  unfold isBetterUpdate
  rw [weight_lt_iff]
  by_cases hf : prev.isFinalized = false ∧ next.Supermajority
  · have : (!prev.isFinalized && next.isFinalized &&
        decide (next.participation * 3 > SYNC_COMMITTEE_SIZE * 2)) = true := by
      simp [hf.1, hf.2.1, hf.2.2]
    rw [if_pos this]
    exact iff_of_true rfl (.inl hf)
  · have : ¬ (!prev.isFinalized && next.isFinalized &&
        decide (next.participation * 3 > SYNC_COMMITTEE_SIZE * 2)) = true := by
      simpa [Supermajority, and_assoc] using hf
    rw [if_neg this, or_iff_right hf]
    split_ifs with hgt hlt
    · exact iff_of_false not_false (by omega)
    · exact iff_of_true rfl (.inl hlt)
    · rw [decide_eq_true_iff]
      omega

end LightclientUpdateStats

end Lodestar.LightClient

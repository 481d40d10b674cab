import Lodestar.Types

/-!
# Records, checks on roots, errors

The records of `types.ts` and `minMaxSurround/interface.ts`, the root checks
of `utils.ts` and the errors of the two services with the data they carry.
-/

namespace Lodestar.SlashingProtection

structure SlashingProtectionBlock where
  slot : Nat
  signingRoot : Root
  deriving DecidableEq, Repr

structure SlashingProtectionAttestation where
  sourceEpoch : Nat
  targetEpoch : Nat
  signingRoot : Root
  deriving DecidableEq, Repr

structure SlashingProtectionLowerBound where
  minSourceEpoch : Nat
  minTargetEpoch : Nat
  deriving DecidableEq, Repr

/-- A span entry to write; the distance of an attestation with `source > target` is not positive. -/
structure IDistanceEntry where
  source : Nat
  distance : Int
  deriving DecidableEq, Repr

inductive SafeStatus where
  | SAME_DATA
  | OK
  deriving DecidableEq, Repr

/-- `ssz.Root.defaultValue()`. -/
def ZERO_ROOT : Root := 0

def isEqualRoot (root1 root2 : Root) : Bool := root1 == root2

def isEqualNonZeroRoot (root1 root2 : Root) : Bool :=
  !isEqualRoot root1 ZERO_ROOT && isEqualRoot root1 root2

theorem isEqualNonZeroRoot_iff {r s : Root} :
    isEqualNonZeroRoot r s = true ↔ r ≠ ZERO_ROOT ∧ r = s := by
  simp [isEqualNonZeroRoot, isEqualRoot]

/-- The least epoch, `null` when there is none. -/
def minEpoch (epochs : List Nat) : Option Nat := epochs.min?

inductive SurroundAttestationErrorCode where
  | IS_SURROUNDING
  | IS_SURROUNDED
  deriving DecidableEq, Repr

/-- Everything the two services throw. -/
inductive SlashingProtectionError where
  | surround (code : SurroundAttestationErrorCode) (attestation : SlashingProtectionAttestation)
      (attestation2Target : Nat)
  | DOUBLE_VOTE (attestation prev : SlashingProtectionAttestation)
  | NEW_SURROUNDS_PREV (attestation : SlashingProtectionAttestation)
      (prev : Option SlashingProtectionAttestation)
  | PREV_SURROUNDS_NEW (attestation : SlashingProtectionAttestation)
      (prev : Option SlashingProtectionAttestation)
  | SOURCE_EXCEEDS_TARGET
  | SOURCE_LESS_THAN_LOWER_BOUND (sourceEpoch minSourceEpoch : Nat)
  | TARGET_LESS_THAN_OR_EQ_LOWER_BOUND (targetEpoch minTargetEpoch : Nat)
  | DOUBLE_BLOCK_PROPOSAL (block block2 : SlashingProtectionBlock)
  | SLOT_LESS_THAN_LOWER_BOUND (slot minSlot : Nat)
  deriving DecidableEq, Repr

end Lodestar.SlashingProtection

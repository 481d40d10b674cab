import Lodestar.SlashingProtection.Db

/-!
# The attestation and block services

`attestation/index.ts` and `block/index.ts`: check and record an attestation or
a proposal, and import those of an interchange file. `SlashingProtection` makes
its `MinMaxSurround` without options, so there is no lookback limit.

The two spans of `minMaxSurround.ts` hold, for each epoch of a validator, how far
away the nearest and the furthest target lies of the attestations seen so far;
comparing one entry with an attestation's own distance tells whether it
surrounds one of them or is surrounded.
-/

namespace Lodestar.SlashingProtection

open Lodestar.Base

/-! ## Min-max surround -/

/-- `attestation.targetEpoch - attestation.sourceEpoch`. -/
def SlashingProtectionAttestation.distance (attestation : SlashingProtectionAttestation) : Int :=
  attestation.targetEpoch - attestation.sourceEpoch

def assertNotSurrounding (pubKey : BLSPubkey) (attestation : SlashingProtectionAttestation) :
    Async Unit := do
  match ← SpanDistanceRepository.get .minSpan pubKey attestation.sourceEpoch with
  | some minSpan =>
    if 0 < minSpan ∧ (minSpan : Int) < attestation.distance then
      throw (.surround .IS_SURROUNDING attestation (attestation.sourceEpoch + minSpan))
  | none => pure ()

def assertNotSurrounded (pubKey : BLSPubkey) (attestation : SlashingProtectionAttestation) :
    Async Unit := do
  match ← SpanDistanceRepository.get .maxSpan pubKey attestation.sourceEpoch with
  | some maxSpan =>
    if 0 < maxSpan ∧ attestation.distance < (maxSpan : Int) then
      throw (.surround .IS_SURROUNDED attestation (attestation.sourceEpoch + maxSpan))
  | none => pure ()

def assertNoSurround (pubKey : BLSPubkey) (attestation : SlashingProtectionAttestation) :
    Async Unit := do
  assertNotSurrounding pubKey attestation
  assertNotSurrounded pubKey attestation

/-- The loop of `updateMinSpan` from epoch `n - 1` down to `untilEpoch`. -/
def updateMinSpanLoop (pubKey : BLSPubkey) (targetEpoch untilEpoch : Nat) :
    Nat → List IDistanceEntry → Async (List IDistanceEntry)
  | 0, values => pure values
  | epoch + 1, values => do
    if epoch < untilEpoch then return values
    let minSpan ← SpanDistanceRepository.get .minSpan pubKey epoch
    let distance : Int := targetEpoch - epoch
    if minSpan.all fun m : Nat => distance < m then
      updateMinSpanLoop pubKey targetEpoch untilEpoch epoch (values ++ [⟨epoch, distance⟩])
    else
      return values

/-- `maxEpochLookback` is `none` for `Infinity`. -/
def updateMinSpan (maxEpochLookback : Option Nat) (pubKey : BLSPubkey)
    (attestation : SlashingProtectionAttestation) : Async Unit := do
  assertNotSurrounding pubKey attestation
  let untilEpoch := maxEpochLookback.elim 0 (attestation.sourceEpoch - 1 - ·)
  let values ← updateMinSpanLoop pubKey attestation.targetEpoch untilEpoch attestation.sourceEpoch []
  SpanDistanceRepository.setBatch .minSpan pubKey values

/-- The loop of `updateMaxSpan` over the last `n` epochs before `targetEpoch`, going up. -/
def updateMaxSpanLoop (pubKey : BLSPubkey) (targetEpoch : Nat) :
    Nat → List IDistanceEntry → Async (List IDistanceEntry)
  | 0, values => pure values
  | n + 1, values => do
    let epoch := targetEpoch - (n + 1)
    let maxSpan ← SpanDistanceRepository.get .maxSpan pubKey epoch
    let distance : Int := targetEpoch - epoch
    if maxSpan.all fun m : Nat => m < distance then
      updateMaxSpanLoop pubKey targetEpoch n (values ++ [⟨epoch, distance⟩])
    else
      return values

def updateMaxSpan (pubKey : BLSPubkey) (attestation : SlashingProtectionAttestation) :
    Async Unit := do
  assertNotSurrounded pubKey attestation
  let values ← updateMaxSpanLoop pubKey attestation.targetEpoch
    (attestation.targetEpoch - (attestation.sourceEpoch + 1)) []
  SpanDistanceRepository.setBatch .maxSpan pubKey values

namespace MinMaxSurround

def insertAttestation (maxEpochLookback : Option Nat) (pubKey : BLSPubkey)
    (attestation : SlashingProtectionAttestation) : Async Unit := do
  updateMinSpan maxEpochLookback pubKey attestation
  updateMaxSpan pubKey attestation

end MinMaxSurround

/-! ## The services -/

/-- The `catch` of `checkAttestation`: looks the other attestation up for the message (the read
itself does not fail here) and throws. -/
def checkAttestationCatch (pubKey : BLSPubkey) (attestation : SlashingProtectionAttestation) :
    SlashingProtectionError → Async Unit
  | .surround code _ attestation2Target => do
    let prev ← AttestationByTargetRepository.get pubKey attestation2Target
    match code with
    | .IS_SURROUNDING => throw (.NEW_SURROUNDS_PREV attestation prev)
    | .IS_SURROUNDED => throw (.PREV_SURROUNDS_NEW attestation prev)
  | e => throw e

def checkAttestation (pubKey : BLSPubkey) (attestation : SlashingProtectionAttestation) :
    Async SafeStatus := do
  if attestation.targetEpoch < attestation.sourceEpoch then
    throw .SOURCE_EXCEEDS_TARGET
  -- double vote
  let sameTargetAtt ← AttestationByTargetRepository.get pubKey attestation.targetEpoch
  if let some prev := sameTargetAtt then
    if isEqualNonZeroRoot prev.signingRoot attestation.signingRoot then
      return .SAME_DATA
    else
      throw (.DOUBLE_VOTE attestation prev)
  -- surround vote
  tryCatch (assertNoSurround pubKey attestation) (checkAttestationCatch pubKey attestation)
  let attestationLowerBound ← AttestationLowerBoundRepository.get pubKey
  if let some bound := attestationLowerBound then
    if attestation.sourceEpoch < bound.minSourceEpoch then
      throw (.SOURCE_LESS_THAN_LOWER_BOUND attestation.sourceEpoch bound.minSourceEpoch)
    if attestation.targetEpoch ≤ bound.minTargetEpoch then
      throw (.TARGET_LESS_THAN_OR_EQ_LOWER_BOUND attestation.targetEpoch bound.minTargetEpoch)
  return .OK

def insertAttestation (pubKey : BLSPubkey) (attestation : SlashingProtectionAttestation) :
    Async Unit := do
  AttestationByTargetRepository.set pubKey [attestation]
  MinMaxSurround.insertAttestation none pubKey attestation

def checkAndInsertAttestation (pubKey : BLSPubkey) (attestation : SlashingProtectionAttestation) :
    Async Unit := do
  let safeStatus ← checkAttestation pubKey attestation
  if safeStatus ≠ .SAME_DATA then
    insertAttestation pubKey attestation

/-- The loop of `importAttestations` over the file's attestations. -/
def insertSpans (pubkey : BLSPubkey) : List SlashingProtectionAttestation → Async Unit
  | [] => pure ()
  | attestation :: attestations => do
    MinMaxSurround.insertAttestation none pubkey attestation
    insertSpans pubkey attestations

/-- The lower bound of a file: the least source and the least target of its attestations. -/
def lowerBoundOf (attestations : List SlashingProtectionAttestation) :
    Option SlashingProtectionLowerBound := do
  let minSourceEpoch ← minEpoch (attestations.map (·.sourceEpoch))
  let minTargetEpoch ← minEpoch (attestations.map (·.targetEpoch))
  return ⟨minSourceEpoch, minTargetEpoch⟩

def importAttestations (pubkey : BLSPubkey) (attestations : List SlashingProtectionAttestation) :
    Async Unit := do
  AttestationByTargetRepository.set pubkey attestations
  insertSpans pubkey attestations
  if let some bound := lowerBoundOf attestations then
    AttestationLowerBoundRepository.set pubkey bound

def exportAttestations (pubkey : BLSPubkey) : Async (List SlashingProtectionAttestation) :=
  AttestationByTargetRepository.getAll pubkey none

def checkBlockProposal (pubkey : BLSPubkey) (block : SlashingProtectionBlock) :
    Async SafeStatus := do
  -- double proposal
  let sameSlotBlock ← BlockBySlotRepository.get pubkey block.slot
  if let some prev := sameSlotBlock then
    if block.slot = prev.slot then
      if isEqualNonZeroRoot prev.signingRoot block.signingRoot then
        return .SAME_DATA
      else
        throw (.DOUBLE_BLOCK_PROPOSAL block prev)
  let minBlock ← BlockBySlotRepository.getFirst pubkey
  if let some first := minBlock then
    if block.slot ≤ first.slot then
      throw (.SLOT_LESS_THAN_LOWER_BOUND block.slot first.slot)
  return .OK

def insertBlockProposal (pubkey : BLSPubkey) (block : SlashingProtectionBlock) : Async Unit :=
  BlockBySlotRepository.set pubkey [block]

def checkAndInsertBlockProposal (pubkey : BLSPubkey) (block : SlashingProtectionBlock) :
    Async Unit := do
  let safeStatus ← checkBlockProposal pubkey block
  if safeStatus ≠ .SAME_DATA then
    insertBlockProposal pubkey block

def importBlocks (pubkey : BLSPubkey) (blocks : List SlashingProtectionBlock) : Async Unit :=
  BlockBySlotRepository.set pubkey blocks

def exportBlocks (pubkey : BLSPubkey) : Async (List SlashingProtectionBlock) :=
  BlockBySlotRepository.getAll pubkey none

end Lodestar.SlashingProtection
